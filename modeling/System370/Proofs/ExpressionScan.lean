import System370.Proofs.ExpressionGrammar
import System370.Proofs.MarkedText

/-!
# Parentheses of an expression

The end of a group is found before its content is read: the scanner for
parentheses skips strings and tells the apostrophe of a length attribute from
one that opens a string.  Over the text of a derivation it comes out of every
string that it goes into, and its depth is what it was (`Phrase.passes`).  So it
finds the parenthesis that the grammar has there.

* `Phrase.parenthesized?_group`: the scanner splits off a group where the
  grammar does;
* `Scan.parenthesized?_eq_some`: what it splits off is a text in parentheses.
-/

namespace System370

namespace Scan

/-! ### Balanced marks -/

/-- Marks that a search for a closing parenthesis passes over. -/
def Balanced (ms : List Mark) : Prop :=
  ∀ depth : Int, 1 ≤ depth → ∀ rest,
    closeAt depth (ms ++ rest) = (closeAt depth rest).map (· + ms.length)

theorem balanced_nil : Balanced [] := by
  intro depth _ rest
  simp

/-- Balanced texts one behind the other. -/
theorem Balanced.append {ms ms' : List Mark} (h : Balanced ms)
    (h' : Balanced ms') :
    Balanced (ms ++ ms') := by
  intro depth hdepth rest
  rw [List.append_assoc, h depth hdepth, h' depth hdepth, Option.map_map]
  congr 1
  funext n
  simp only [Function.comp_apply, List.length_append]
  omega

theorem balanced_single {m : Mark} (hopen : m.is openParen = false)
    (hclose : m.is closeParen = false) :
    Balanced [m] := by
  intro depth _ rest
  rw [List.singleton_append, closeAt, if_neg (by simp [hopen]),
    if_neg (by simp [hclose])]
  rfl

/-- Marks of octets that are no parentheses outside strings. -/
theorem balanced_of_forall {ms : List Mark}
    (h : ∀ m ∈ ms, m.is openParen = false ∧ m.is closeParen = false) :
    Balanced ms := by
  induction ms with
  | nil => exact balanced_nil
  | cons m rest ih =>
      obtain ⟨hm, hrest⟩ := List.forall_mem_cons.mp h
      exact (balanced_single hm.1 hm.2).append (ih hrest)

/-- The parenthesis that closes a group. -/
theorem closeAt_group {ms : List Mark} (h : Balanced ms) {depth : Int}
    (hdepth : 0 ≤ depth) (rest : List Mark) : closeAt
      depth (⟨openParen, false⟩ :: (ms ++ ⟨closeParen, false⟩ :: rest)) =
      if depth = 0 then some (ms.length + 1)
      else (closeAt depth rest).map (· + (ms.length + 2)) := by
  rw [closeAt, if_pos (by decide), h (depth + 1) (by omega), closeAt,
    if_neg (by decide), if_pos (by decide)]
  by_cases hzero : depth = 0
  · rw [if_pos (by omega), if_pos hzero]
    simp
  · rw [if_neg (by omega), if_neg hzero, Option.map_map, Option.map_map]
    have hsame : depth + 1 - 1 = depth := by omega
    rw [hsame]
    congr 1
    funext n
    simp only [Function.comp_apply]
    omega

/-- Parentheses around a balanced text. -/
theorem balanced_group {ms : List Mark} (h : Balanced ms) :
    Balanced (⟨openParen, false⟩ :: (ms ++ [⟨closeParen, false⟩])) := by
  intro depth hdepth rest
  have hgroup := closeAt_group h (by omega : 0 ≤ depth) rest
  rw [if_neg (by omega)] at hgroup
  simpa [List.append_assoc] using hgroup

/-! ### Texts that leave the scanner as it was -/

/-- Whether the scanner, outside strings in front of a text, is so behind it,
and passes over it. -/
def Passes (before text rest : Bytes) : Prop :=
  ∃ ms, Balanced ms ∧ ms.length = text.length ∧
    (mark before .outside (text ++ rest)).1 = ms ++
      (mark (text.reverse ++ before) .outside rest).1

theorem passes_nil (before rest : Bytes) : Passes before [] rest :=
  ⟨[], balanced_nil, rfl, rfl⟩

/-- A scanner that passes two texts passes both together. -/
theorem Passes.append {before text text' rest : Bytes}
    (h : Passes before text (text' ++ rest))
    (h' : Passes (text.reverse ++ before) text' rest) :
    Passes before (text ++ text') rest := by
  obtain ⟨ms, hbalanced, hlength, hmarks⟩ := h
  obtain ⟨ms', hbalanced', hlength', hmarks'⟩ := h'
  refine ⟨ms ++ ms',
    hbalanced.append hbalanced', by simp [hlength, hlength'], ?_⟩
  rw [List.append_assoc, hmarks, hmarks', List.append_assoc,
    List.reverse_append, List.append_assoc]

/-- An octet that is no apostrophe and no parenthesis. -/
theorem passes_octet {c : UInt8} (hquote : c ≠ quote) (hopen : c ≠ openParen)
    (hclose : c ≠ closeParen) (before rest : Bytes) :
    Passes before [c] rest := by
  refine ⟨[⟨c, false⟩], balanced_single (by simp [Mark.is, hopen])
    (by simp [Mark.is, hclose]), rfl, ?_⟩
  simp [mark, Quoting.step, hquote]

/-- A text without quotes and parentheses is passed. -/
theorem passes_plain {text : Bytes}
    (h : ∀ c ∈ text, c ≠ quote ∧ c ≠ openParen ∧ c ≠ closeParen)
    (before rest : Bytes) : Passes before text rest := by
  induction text generalizing before with
  | nil => exact passes_nil before rest
  | cons c more ih =>
      obtain ⟨⟨hquote, hopen, hclose⟩, hmore⟩ := List.forall_mem_cons.mp h
      exact (passes_octet hquote hopen hclose before (more ++ rest)).append
        (ih hmore _)

/-- The apostrophe of a length attribute. -/
theorem passes_attribute {before rest : Bytes}
    (h : attributeQuote before rest.head? = true) :
    Passes before [quote] rest := by
  refine ⟨[⟨quote, false⟩], balanced_single (by decide) (by decide), rfl, ?_⟩
  simp [mark, Quoting.step, h]

/-- The inside of a string and the apostrophe that closes it. -/
theorem mark_inside {body rest : Bytes} (h : Expression.Doubled body)
    (hrest : ∀ d ∈ rest.head?, d ≠ quote) (before : Bytes) :
    mark before .inside (body ++ quote :: rest) =
      (body.map (⟨·, true⟩) ++
          ⟨quote, true⟩ ::
            (mark (quote :: (body.reverse ++ before)) .outside rest).1,
        (mark (quote :: (body.reverse ++ before)) .outside rest).2) := by
  induction h generalizing before with
  | nil =>
      have hnext : rest.head? ≠ some quote := fun heq => hrest quote heq rfl
      simp [mark, Quoting.step, hnext]
  | @octet c more hc doubled ih =>
      rw [List.cons_append, mark]
      simp only [Quoting.step, if_neg hc]
      rw [ih (c :: before)]
      simp
  | @pair more doubled ih =>
      rw [List.cons_append, List.cons_append, mark]
      simp only [Quoting.step, List.head?_cons, if_true]
      rw [mark]
      simp only [Quoting.step]
      rw [ih (quote :: quote :: before)]
      simp

/-- A string. -/
theorem passes_string {before body rest : Bytes} (h : Expression.Doubled body)
    (hopens : ∀ next, attributeQuote before next = false)
    (hrest : ∀ d ∈ rest.head?, d ≠ quote) :
    Passes before (quote :: (body ++ [quote])) rest := by
  refine ⟨⟨quote, true⟩ :: (body.map (⟨·, true⟩) ++ [⟨quote, true⟩]),
    ?_, by simp, ?_⟩
  · apply balanced_of_forall
    intro m hm
    have hquoted : m.quoted = true := by
      rcases List.mem_cons.mp hm with rfl | hm
      · rfl
      · rcases List.mem_append.mp hm with hm | hm
        · obtain ⟨c, -, rfl⟩ := List.mem_map.mp hm
          rfl
        · rw [List.mem_singleton.mp hm]
    simp [Mark.is, hquoted]
  · rw [List.cons_append, List.append_assoc, List.singleton_append, mark]
    simp only [Quoting.step, hopens, true_and, if_true]
    rw [mark_inside h hrest]
    simp

/-- A group. -/
theorem Passes.group {before text rest : Bytes}
    (h : Passes (openParen :: before) text (closeParen :: rest)) :
    Passes before (openParen :: (text ++ [closeParen])) rest := by
  obtain ⟨ms, hbalanced, hlength, hmarks⟩ := h
  refine ⟨_, balanced_group hbalanced, by simp [hlength], ?_⟩
  have hopen :
      (mark before .outside (openParen :: (text ++ closeParen :: rest))).1 =
      ⟨openParen, false⟩ :: (mark (openParen :: before) .outside
        (text ++ closeParen :: rest)).1 := by
    simp [mark, Quoting.step, openParen, quote]
  have hclose : (mark (text.reverse ++ openParen :: before) .outside
      (closeParen :: rest)).1 =
      ⟨closeParen, false⟩ ::
        (mark (closeParen :: (text.reverse ++ openParen :: before)) .outside
          rest).1 := by
    simp [mark, Quoting.step, closeParen, quote]
  rw [List.cons_append, List.append_assoc, List.singleton_append, hopen,
    hmarks, hclose]
  simp

/-- The text in parentheses at the start of a text. -/
theorem parenthesized?_of_passes {text rest : Bytes}
    (h : Passes [openParen] text (closeParen :: rest)) :
    parenthesized? (openParen :: (text ++ closeParen :: rest)) =
      some (text, rest) := by
  obtain ⟨ms, hbalanced, hlength, hmarks⟩ := h
  have hopen :
      (mark [] .outside (openParen :: (text ++ closeParen :: rest))).1 =
      ⟨openParen, false⟩ ::
        (mark [openParen] .outside (text ++ closeParen :: rest)).1 := by
    simp [mark, Quoting.step, openParen, quote]
  have hclose :
      (mark (text.reverse ++ [openParen]) .outside (closeParen :: rest)).1 =
      ⟨closeParen, false⟩ :: (mark (closeParen :: (text.reverse ++ [openParen]))
        .outside rest).1 := by
    simp [mark, Quoting.step, closeParen, quote]
  have hfound := closeAt_group hbalanced (Int.le_refl 0)
    (mark (closeParen :: (text.reverse ++ [openParen])) .outside rest).1
  rw [if_pos rfl, ← hclose, ← hmarks, ← hopen, hlength] at hfound
  rw [parenthesized?, closingParen_eq, hfound]
  simp

/-! ### What is split off -/

/-- The marks of a text are those of its octets. -/
theorem octets_mark (before : Bytes) (state : Quoting) (text : Bytes) :
    (mark before state text).1.map (·.octet) = text := by
  induction text generalizing before state with
  | nil => rfl
  | cons c rest ih => simp [mark, ih]

/-- What closes a group is a closing parenthesis. -/
theorem getElem?_closeAt {depth : Int} {ms : List Mark} {i : Nat}
    (h : closeAt depth ms = some i) :
    (ms.map (·.octet))[i]? = some closeParen := by
  induction ms generalizing depth i with
  | nil => simp [closeAt] at h
  | cons m rest ih =>
      have hlater : ∀ {depth : Int}, (closeAt depth rest).map (· + 1) = some i →
          ((m :: rest).map (·.octet))[i]? = some closeParen := by
        intro depth hmap
        obtain ⟨j, hj, rfl⟩ := Option.map_eq_some_iff.mp hmap
        rw [List.map_cons, List.getElem?_cons_succ]
        exact ih hj
      unfold closeAt at h
      split at h
      · exact hlater h
      · split at h
        · rename_i hclose
          split at h
          · rw [← Option.some.inj h]
            simp only [Mark.is, Bool.and_eq_true, decide_eq_true_eq] at hclose
            simp [hclose.1]
          · exact hlater h
        · exact hlater h

/-- **What is split off is a text in parentheses**, if the text starts with
one. -/
theorem parenthesized?_eq_some {text inner rest : Bytes}
    (h : parenthesized? (openParen :: text) = some (inner, rest)) :
    openParen :: text = openParen :: (inner ++ closeParen :: rest) := by
  obtain ⟨i, hi, hparts⟩ := Option.map_eq_some_iff.mp h
  obtain ⟨rfl, rfl⟩ := Prod.mk.inj hparts
  rw [closingParen_eq] at hi
  have hclose := getElem?_closeAt hi
  rw [octets_mark] at hclose
  cases i with
  | zero => simp [openParen, closeParen] at hclose
  | succ i =>
      rw [List.getElem?_cons_succ] at hclose
      obtain ⟨hlt, hget⟩ := List.getElem?_eq_some_iff.mp hclose
      rw [List.take_succ_cons, List.tail_cons, List.drop_succ_cons, ← hget,
        List.getElem_cons_drop, List.take_append_drop]

end Scan

namespace Expression

/-- Whether no symbol ends with the last octet of a text, nearest octet
first. -/
def Apart (before : Bytes) : Prop := ∀ d ∈ before.head?, isSymbolChar d = false

/-- A text that the phrases of a category may stand behind. -/
def Category.Behind (c : Category) (before : Bytes) : Prop :=
  c = .sumTail ∨ c = .productTail ∨ Apart before

theorem ne_paren_of_symbolChar {c : UInt8} (h : isSymbolChar c = true) :
    c ≠ quote ∧ c ≠ Scan.openParen ∧ c ≠ Scan.closeParen := by
  refine ⟨?_, ?_, ?_⟩ <;> rintro rfl <;> exact absurd h (by decide)

/-- A symbol has no quotes and no parentheses. -/
theorem IsName.plain {name : Bytes} (h : IsName name) :
    ∀ c ∈ name, c ≠ quote ∧ c ≠ Scan.openParen ∧ c ≠ Scan.closeParen := by
  obtain ⟨c, rest, rfl, hc, hrest⟩ := h
  exact List.forall_mem_cons.mpr
    ⟨ne_paren_of_symbolChar (isSymbolChar_of_start hc), fun d hd =>
    ne_paren_of_symbolChar (hrest d hd)⟩

/-- The apostrophe behind an `L` of its own. -/
theorem attributeQuote_letter {letter : UInt8}
    (hletter : upperAscii letter = octet 'L') {before : Bytes}
    (hbefore : Apart before)
    {next : UInt8} (hnext : isSymbolStart next = true ∨ next = octet '*') :
    Scan.attributeQuote (letter :: before) (some next) = true := by
  have hl : letter = 0x4C ∨ letter = 0x6C := upperAscii_eq hletter
  have hn : (isSymbolStart next || next = 0x2A) = true := by
    rcases hnext with hnext | rfl
    · simp [hnext]
    · decide
  cases before with
  | nil => rcases hl with rfl | rfl <;> simpa [Scan.attributeQuote] using hn
  | cons d more =>
      have hd := hbefore d rfl
      rcases hl with rfl | rfl <;> simpa [Scan.attributeQuote, hd] using hn

/-- No other letter stands in front of a length attribute. -/
theorem attributeQuote_kind {kind : UInt8} (hkind : upperAscii kind ≠ octet 'L')
    (before : Bytes) (next : Option UInt8) :
    Scan.attributeQuote (kind :: before) next = false := by
  have hne : kind ≠ 0x4C ∧ kind ≠ 0x6C := by
    constructor <;> rintro rfl <;> exact hkind (by decide)
  cases before <;> simp [Scan.attributeQuote, hne.1, hne.2]

/-- **A leaf is passed**: its quotes are those of a string that is closed. -/
theorem Leaf.passes {l : Leaf} (hl : l.WellFormed) {before rest : Bytes}
    (hbefore : Apart before) (hrest : Category.term.Follows rest) :
    Scan.Passes before l.text rest := by
  have hends := fun d hd => (hrest.ends d hd).2.2
  have hstart : ∀ {c : UInt8}, isSymbolStart c = true → ∀ before rest,
      Scan.Passes before [c] rest := by
    intro c hc
    obtain ⟨hquote, hopen, hclose⟩ :=
      ne_paren_of_symbolChar (isSymbolChar_of_start hc)
    exact Scan.passes_octet hquote hopen hclose
  cases l with
  | decimal digits =>
      refine Scan.passes_plain (fun c hc => ?_) before rest
      exact ne_paren_of_symbolChar (by simp [isSymbolChar, hl.2 c hc])
  | selfDefining kind body =>
      have hkind := start_of_kind (kind_of_wellFormed hl)
      have hlength := ne_length_of_wellFormed hl
      have hdoubled := doubled_of_wellFormed hl
      exact (hstart hkind before _).append
        (Scan.passes_string hdoubled (attributeQuote_kind hlength before) hends)
  | lengthOf letter name =>
      obtain ⟨hletter, hname⟩ := hl
      have hplain := Scan.passes_plain hname.plain
        ([quote].reverse ++ ([letter].reverse ++ before)) rest
      obtain ⟨c, more, rfl, hc, -⟩ := hname
      exact (hstart (start_of_length hletter) before _).append
        ((Scan.passes_attribute
          (attributeQuote_letter hletter hbefore (Or.inl hc))).append hplain)
  | lengthHere letter =>
      have hletter : upperAscii letter = octet 'L' := hl
      exact (hstart (start_of_length hletter) before _).append
        ((Scan.passes_attribute
          (attributeQuote_letter hletter hbefore (Or.inr rfl))).append
          (Scan.passes_octet (by decide) (by decide) (by decide) _ rest))
  | here =>
      exact Scan.passes_octet (by decide) (by decide) (by decide) before rest
  | symbol name => exact Scan.passes_plain (IsName.plain hl) before rest

/-! ### Operators and groups -/

/-- Whether an octet is an operator between terms or factors. -/
def IsOperator (d : UInt8) : Prop := d = octet '+' ∨ d = octet '-' ∨
  d = octet '*' ∨ d = octet '/'

/-- What stands behind an operator stands apart. -/
theorem apart_operator {d : UInt8} (hd : IsOperator d) (before : Bytes) :
    Apart (d :: before) := by
  intro d' hd'
  rw [← Option.some.inj hd']
  rcases hd with rfl | rfl | rfl | rfl <;> decide

/-- What stands behind an opening parenthesis stands apart. -/
theorem apart_open (before : Bytes) : Apart (octet '(' :: before) := by
  intro d hd
  rw [← Option.some.inj hd]
  decide

/-- So is an operator. -/
theorem passes_operator {d : UInt8} (hd : IsOperator d) (before rest : Bytes) :
    Scan.Passes before [d] rest := by
  apply Scan.passes_octet <;> rcases hd with rfl | rfl | rfl | rfl <;> decide

/-- An operator and a text behind it. -/
theorem passes_behind {d : UInt8} (hd : IsOperator d) {before text rest : Bytes}
    (h : Apart (d :: before) → Scan.Passes (d :: before) text rest) :
    Scan.Passes before (d :: text) rest :=
  (passes_operator hd before _).append (h (apart_operator hd before))

namespace Phrase

/-- **The scanner passes over the text of a derivation.** -/
theorem passes {c : Category} (p : Phrase c) {before rest : Bytes}
    (hbefore : c.Behind before) (hrest : c.Follows rest) :
    Scan.Passes before p.yield rest := by
  induction p generalizing before rest with
  | sum first tail ihFirst ihTail =>
      have hends : Category.sumTail.Follows rest :=
        hrest.mono (by simp) (by simp)
      have hapart : Apart before := by simpa [Category.Behind] using hbefore
      exact (ihFirst (Or.inr (Or.inr hapart))
        (follows_sumTail tail hends)).append
        (ihTail (Or.inl rfl) hends)
  | sumEnd => exact Scan.passes_nil before rest
  | plus next tail ihNext ihTail | minus next tail ihNext ihTail =>
      exact passes_behind (by simp [IsOperator]) fun hb =>
        (ihNext (Or.inr (Or.inr hb)) (follows_sumTail tail hrest)).append
          (ihTail (Or.inl rfl) hrest)
  | product first tail ihFirst ihTail =>
      have hends : Category.productTail.Follows rest :=
        hrest.mono (by simp) (by simp)
      have hapart : Apart before := by simpa [Category.Behind] using hbefore
      exact (ihFirst (Or.inr (Or.inr hapart))
        (follows_productTail tail hends)).append
        (ihTail (Or.inr (Or.inl rfl)) hends)
  | productEnd => exact Scan.passes_nil before rest
  | times next tail ihNext ihTail | divided next tail ihNext ihTail =>
      exact passes_behind (by simp [IsOperator]) fun hb =>
        (ihNext (Or.inr (Or.inr hb)) (follows_productTail tail hrest)).append
          (ihTail (Or.inr (Or.inl rfl)) hrest)
  | positive of ih | negative of ih =>
      exact passes_behind (by simp [IsOperator]) fun hb =>
        ih (Or.inr (Or.inr hb)) hrest
  | bare term ih =>
      have hapart : Apart before := by simpa [Category.Behind] using hbefore
      exact ih (Or.inr (Or.inr hapart)) (hrest.mono (by simp) (by simp))
  | group inner ih =>
      exact Scan.Passes.group
        (ih (Or.inr (Or.inr (apart_open before))) (follows_close _ rest))
  | leaf l hl =>
      exact Leaf.passes hl (by simpa [Category.Behind] using hbefore) hrest

/-- **A group ends where the grammar has its closing parenthesis.** -/
theorem parenthesized?_group (inner : Phrase .sum) (rest : Bytes) :
    Scan.parenthesized? (octet '(' :: (inner.yield ++ octet ')' :: rest)) =
      some (inner.yield, rest) :=
  Scan.parenthesized?_of_passes
    (inner.passes (Or.inr (Or.inr (apart_open []))) (follows_close _ rest))

end Phrase

end Expression

end System370
