import System370.Expression
import Mathlib.Data.List.TakeWhile

/-!
# The grammar of expressions

    sum     = product { ("+" | "-") product }
    product = factor { ("*" | "/") factor }
    factor  = ("+" | "-") factor | term
    term    = "(" sum ")" | decimal | X'..' | B'..' | C'..' | L'symbol | L'*
            | * | symbol

A `Phrase` is a derivation: its category says of which left side, its `yield` is
the text that it derives.  What stands behind a phrase of some category can only
be the end of the text, a closing parenthesis or an operator (`Follows`), and
that tells where the phrase ends.

* `Leaf.read_text`: a term is read off the beginning of a text;
* `Phrase.yield_injective`: no text has two derivations.
-/

namespace System370

namespace Expression

/-! ### Terms -/

/-- A term without parentheses, as it is written.  Letters may be small or
capital. -/
inductive Leaf where
  | decimal (digits : Bytes)
  /-- `X'..'`, `B'..'` or `C'..'`. -/
  | selfDefining (kind : UInt8) (body : Bytes)
  /-- `L'symbol`. -/
  | lengthOf (letter : UInt8) (name : Bytes)
  /-- `L'*`. -/
  | lengthHere (letter : UInt8)
  /-- `*`. -/
  | here
  | symbol (name : Bytes)
  deriving DecidableEq, Repr

/-- Whether apostrophes come in pairs only. -/
inductive Doubled : Bytes → Prop where
  | nil : Doubled []
  | octet {c : UInt8} {rest : Bytes} (h : c ≠ quote) (doubled : Doubled rest) :
      Doubled (c :: rest)
  | pair {rest : Bytes} (doubled : Doubled rest) :
      Doubled (quote :: quote :: rest)

/-- A text without quotes is doubled as it stands. -/
theorem doubled_of_not_mem {body : Bytes} (h : quote ∉ body) :
    Doubled body := by
  induction body with
  | nil => exact .nil
  | cons c rest ih =>
      obtain ⟨hc, hrest⟩ := List.ne_and_not_mem_of_not_mem_cons h
      exact .octet (Ne.symm hc) (ih hrest)

/-- Whether a text is a symbol: a letter, and letters, digits and underscores
behind it. -/
def IsName (name : Bytes) : Prop :=
  ∃ c rest, name = c :: rest ∧ isSymbolStart c = true ∧ ∀ d ∈ rest,
    isSymbolChar d = true

namespace Leaf

/-- The text of a term. -/
def text : Leaf → Bytes
  | .decimal digits => digits
  | .selfDefining kind body => kind :: quote :: (body ++ [quote])
  | .lengthOf letter name => letter :: quote :: name
  | .lengthHere letter => [letter, quote, octet '*']
  | .here => [octet '*']
  | .symbol name => name

/-- Whether a term is spelled as the grammar has it. -/
def WellFormed : Leaf → Prop
  | .decimal digits => digits ≠ [] ∧ ∀ c ∈ digits, isDigit c = true
  | .selfDefining kind body =>
    (upperAscii kind = octet 'X' ∨ upperAscii kind = octet 'B') ∧ quote ∉ body ∨
      upperAscii kind = octet 'C' ∧ Doubled body
  | .lengthOf letter name => upperAscii letter = octet 'L' ∧ IsName name
  | .lengthHere letter => upperAscii letter = octet 'L'
  | .here => True
  | .symbol name => IsName name

end Leaf

/-! ### Derivations -/

/-- The left sides of the grammar.  The tails are the parts in braces. -/
inductive Category where
  | sum
  | sumTail
  | product
  | productTail
  | factor
  | term
  deriving DecidableEq, Repr

/-- A derivation. -/
inductive Phrase : Category → Type where
  | sum (first : Phrase .product) (rest : Phrase .sumTail) : Phrase .sum
  | sumEnd : Phrase .sumTail
  | plus (next : Phrase .product) (rest : Phrase .sumTail) : Phrase .sumTail
  | minus (next : Phrase .product) (rest : Phrase .sumTail) : Phrase .sumTail
  | product (first : Phrase .factor) (rest : Phrase .productTail) :
      Phrase .product
  | productEnd : Phrase .productTail
  | times (next : Phrase .factor) (rest : Phrase .productTail) :
      Phrase .productTail
  | divided (next : Phrase .factor) (rest : Phrase .productTail) :
      Phrase .productTail
  | positive (of : Phrase .factor) : Phrase .factor
  | negative (of : Phrase .factor) : Phrase .factor
  | bare (term : Phrase .term) : Phrase .factor
  | group (inner : Phrase .sum) : Phrase .term
  | leaf (l : Leaf) (spelled : l.WellFormed) : Phrase .term

namespace Phrase

/-- The text that is derived. -/
def yield : {c : Category} → Phrase c → Bytes
  | _, .sum first rest => first.yield ++ rest.yield
  | _, .sumEnd => []
  | _, .plus next rest => octet '+' :: (next.yield ++ rest.yield)
  | _, .minus next rest => octet '-' :: (next.yield ++ rest.yield)
  | _, .product first rest => first.yield ++ rest.yield
  | _, .productEnd => []
  | _, .times next rest => octet '*' :: (next.yield ++ rest.yield)
  | _, .divided next rest => octet '/' :: (next.yield ++ rest.yield)
  | _, .positive of => octet '+' :: of.yield
  | _, .negative of => octet '-' :: of.yield
  | _, .bare term => term.yield
  | _, .group inner => octet '(' :: (inner.yield ++ [octet ')'])
  | _, .leaf l _ => l.text

end Phrase

/-- What may stand behind a phrase: the end of the text, a closing parenthesis,
or an operator that does not go on with the phrase. -/
def Category.Follows (c : Category) (rest : Bytes) : Prop :=
  ∀ d ∈ rest.head?, d = octet ')' ∨
    (c ≠ .sum ∧ c ≠ .sumTail ∧ (d = octet '+' ∨ d = octet '-')) ∨
    ((c = .factor ∨ c = .term) ∧ (d = octet '*' ∨ d = octet '/'))

/-! ### Octets -/

/-- What begins a symbol is told from what does not. -/
theorem ne_of_start {c d : UInt8} (h : isSymbolStart c = true)
    (hd : isSymbolStart d = false) : c ≠ d := by
  rintro rfl
  simp [hd] at h

/-- A digit is told from what is none. -/
theorem ne_of_digit {c d : UInt8} (h : isDigit c = true)
    (hd : isDigit d = false) : c ≠ d := by
  rintro rfl
  simp [hd] at h

theorem not_digit_of_start {c : UInt8} (h : isSymbolStart c = true) :
    isDigit c = false := by
  rw [Bool.eq_false_iff]
  intro hd
  simp only [isSymbolStart, isDigit, Bool.or_eq_true, Bool.and_eq_true,
    decide_eq_true_eq, UInt8.le_iff_toNat_le, ← UInt8.toNat_inj] at h hd
  simp at h hd
  omega

theorem isSymbolChar_of_start {c : UInt8} (h : isSymbolStart c = true) :
    isSymbolChar c = true := by
  simp [isSymbolChar, h]

/-- A letter in one of its two spellings. -/
theorem upperAscii_eq {c d : UInt8} (h : upperAscii c = d) :
    c = d ∨ c = d + 0x20 := by
  unfold upperAscii at h
  split at h
  · rw [← h]
    exact Or.inr (by grind)
  · exact Or.inl h

/-- The letters of self-defining terms could begin symbols. -/
theorem start_of_kind {kind : UInt8}
    (h : upperAscii kind = octet 'X' ∨ upperAscii kind = octet 'B' ∨
    upperAscii kind = octet 'C') : isSymbolStart kind = true := by
  rcases h with h | h | h <;> rcases upperAscii_eq h with rfl | rfl <;> decide

/-- So could the letter of a length. -/
theorem start_of_length {letter : UInt8} (h : upperAscii letter = octet 'L') :
    isSymbolStart letter = true := by
  rcases upperAscii_eq h with rfl | rfl <;> decide

/-! ### Self-defining terms -/

section SelfDefining

variable {kind : UInt8} {body : Bytes}
  (hl : (Leaf.selfDefining kind body).WellFormed)

include hl

theorem kind_of_wellFormed :
    upperAscii kind = octet 'X' ∨ upperAscii kind = octet 'B' ∨
    upperAscii kind = octet 'C' := by
  rcases hl with ⟨hkind | hkind, -⟩ | ⟨hkind, -⟩ <;> simp [hkind]

theorem ne_length_of_wellFormed : upperAscii kind ≠ octet 'L' := by
  rcases kind_of_wellFormed hl with hkind | hkind | hkind <;>
    rw [hkind] <;> decide

theorem doubled_of_wellFormed : Doubled body := by
  rcases hl with ⟨-, hbody⟩ | ⟨-, hbody⟩
  · exact doubled_of_not_mem hbody
  · exact hbody

end SelfDefining

/-! ### What stands behind a phrase -/

/-- What stands behind a sum may stand behind any phrase. -/
theorem Category.Follows.mono {c c' : Category} {rest : Bytes}
    (h : c.Follows rest)
    (hsum : c' = .sum ∨ c' = .sumTail → c = .sum ∨ c = .sumTail)
    (hfactor : c = .factor ∨ c = .term → c' = .factor ∨ c' = .term) :
    c'.Follows rest := by
  intro d hd
  rcases h d hd with hclose | ⟨hsum₁, hsum₂, hsign⟩ | ⟨hc, hstar⟩
  · exact Or.inl hclose
  · refine Or.inr (Or.inl ⟨fun heq => ?_, fun heq => ?_, hsign⟩)
    · exact (hsum (Or.inl heq)).elim hsum₁ hsum₂
    · exact (hsum (Or.inr heq)).elim hsum₁ hsum₂
  · exact Or.inr (Or.inr ⟨hfactor hc, hstar⟩)

/-- What stands behind a term is no part of a symbol, a number or a string. -/
theorem Category.Follows.ends {c : Category} {rest : Bytes}
    (h : c.Follows rest) :
    ∀ d ∈ rest.head?, isSymbolChar d = false ∧ isDigit d = false ∧
      d ≠ quote := by
  intro d hd
  rcases h d hd with rfl | ⟨-, -, rfl | rfl⟩ | ⟨-, rfl | rfl⟩ <;> decide

/-- The longest beginning of octets of some sort ends where another octet
stands. -/
theorem span_append {p : UInt8 → Bool} {text rest : Bytes}
    (htext : ∀ c ∈ text, p c = true) (hrest : ∀ d ∈ rest.head?, p d = false) :
    (text ++ rest).takeWhile p = text ∧ (text ++ rest).dropWhile p = rest := by
  have hstops : rest.takeWhile p = [] ∧ rest.dropWhile p = rest := by
    cases rest with
    | nil => exact ⟨rfl, rfl⟩
    | cons d more =>
        have hd := hrest d rfl
        simp [hd]
  rw [List.takeWhile_append_of_pos htext, List.dropWhile_append_of_pos htext,
    hstops.1, hstops.2]
  exact ⟨List.append_nil _, rfl⟩

/-- No apostrophe follows the first letter of a symbol. -/
theorem head_ne_quote {more rest : Bytes}
    (hmore : ∀ d ∈ more, isSymbolChar d = true)
    (hrest : Category.term.Follows rest) :
    (more ++ rest).head? ≠ some quote := by
  intro heq
  cases more with
  | nil => exact (hrest.ends quote heq).2.2 rfl
  | cons d others =>
      have hd := hmore d List.mem_cons_self
      rw [Option.some.inj heq] at hd
      exact absurd hd (by decide)

/-- A string ends at the first apostrophe that is not doubled. -/
theorem closingQuote_append {body rest : Bytes} (h : Doubled body)
    (hrest : ∀ d ∈ rest.head?, d ≠ quote) :
    Scan.closingQuote (body ++ quote :: rest) = some body.length := by
  induction h with
  | nil =>
      cases rest with
      | nil => simp [Scan.closingQuote]
      | cons d more =>
          have hd := hrest d rfl
          simp [Scan.closingQuote, hd]
  | @octet c more hc doubled ih =>
      cases hnext : more ++ quote :: rest with
      | nil => simp at hnext
      | cons d others =>
          rw [List.cons_append, hnext, Scan.closingQuote, if_neg hc,
            ← hnext, ih]
          rfl
  | pair doubled ih =>
      rw [List.cons_append, List.cons_append, Scan.closingQuote, if_pos rfl,
        if_pos rfl, ih]
      rfl

/-! ### Reading terms -/

namespace Leaf

/-- The term at the beginning of a text, and the text behind it. -/
def read : Bytes → Leaf × Bytes
  | [] => (.here, [])
  | c :: rest =>
    if c = octet '*' then (.here, rest)
    else if isDigit c then
      (.decimal ((c :: rest).takeWhile isDigit), (c :: rest).dropWhile isDigit)
    else if rest.head? = some quote then
      if upperAscii c = octet 'L' then
        if rest.tail.head? = some (octet '*') then
          (.lengthHere c, rest.tail.tail)
        else (.lengthOf c (rest.tail.takeWhile isSymbolChar),
          rest.tail.dropWhile isSymbolChar)
      else
        let n := (Scan.closingQuote rest.tail).getD 0
        (.selfDefining c (rest.tail.take n), rest.tail.drop (n + 1))
    else (.symbol ((c :: rest).takeWhile isSymbolChar),
      (c :: rest).dropWhile isSymbolChar)

/-- **A term ends where an operator or a closing parenthesis stands.** -/
theorem read_text {l : Leaf} (hl : l.WellFormed)
    {rest : Bytes} (hrest : Category.term.Follows rest) :
    read (l.text ++ rest) = (l, rest) := by
  have hends := hrest.ends
  have hname : ∀ {name : Bytes},
      IsName name → (∀ c ∈ name, isSymbolChar c = true) ∧
      ∃ c more, name = c :: more ∧ isSymbolStart c = true := by
    rintro name ⟨c, more, rfl, hc, hmore⟩
    exact ⟨List.forall_mem_cons.mpr ⟨isSymbolChar_of_start hc, hmore⟩, c,
      more, rfl, hc⟩
  cases l with
  | decimal digits =>
      obtain ⟨hne, hdigits⟩ := hl
      obtain ⟨htake, hdrop⟩ := span_append hdigits fun d hd => (hends d hd).2.1
      cases digits with
      | nil => exact absurd rfl hne
      | cons c more =>
          have hc := hdigits c List.mem_cons_self
          rw [text, List.cons_append, read, if_neg (ne_of_digit hc (by decide)),
            if_pos hc, ← List.cons_append, htake, hdrop]
  | selfDefining kind body =>
      have hkind := start_of_kind (kind_of_wellFormed hl)
      have hlength := ne_length_of_wellFormed hl
      have hdoubled := doubled_of_wellFormed hl
      have hclosing := closingQuote_append hdoubled fun d hd => (hends d hd).2.2
      have htext : (Leaf.selfDefining kind body).text ++ rest =
          kind :: quote :: (body ++ quote :: rest) := by simp [text]
      rw [htext, read, if_neg (ne_of_start hkind (by decide)),
        if_neg (by simp [not_digit_of_start hkind]), List.head?_cons,
        if_pos rfl, if_neg hlength]
      simp only [List.tail_cons, hclosing, Option.getD_some]
      simp
  | lengthOf letter name =>
      obtain ⟨hletter, hnamed⟩ := hl
      obtain ⟨hchars, c, more, rfl, hc⟩ := hname hnamed
      have hstart := start_of_length hletter
      obtain ⟨htake, hdrop⟩ := span_append hchars fun d hd => (hends d hd).1
      have hstar : c ≠ octet '*' := ne_of_start hc (by decide)
      rw [text, List.cons_append, List.cons_append, read,
        if_neg (ne_of_start hstart (by decide)),
        if_neg (by simp [not_digit_of_start hstart]), List.head?_cons,
        if_pos rfl, if_pos hletter,
        List.tail_cons, if_neg (by simpa using hstar), htake, hdrop]
  | lengthHere letter =>
      have hletter : upperAscii letter = octet 'L' := hl
      have hstart := start_of_length hletter
      rw [text, List.cons_append, List.cons_append, read,
        if_neg (ne_of_start hstart (by decide)),
        if_neg (by simp [not_digit_of_start hstart]), List.head?_cons,
        if_pos rfl, if_pos hletter]
      rfl
  | here => rfl
  | symbol name =>
      obtain ⟨hchars, c, more, rfl, hc⟩ := hname hl
      obtain ⟨htake, hdrop⟩ := span_append hchars fun d hd => (hends d hd).1
      have hnext :=
        head_ne_quote (fun d hd => hchars d (List.mem_cons_of_mem c hd)) hrest
      rw [text, List.cons_append, read, if_neg (ne_of_start hc (by decide)),
        if_neg (by simp [not_digit_of_start hc]), if_neg hnext,
        ← List.cons_append, htake, hdrop]

end Leaf

/-! ### No text has two derivations -/

namespace Phrase

/-- A leaf begins with an asterisk, a digit or a letter. -/
theorem head_text {l : Leaf} (hl : l.WellFormed) :
    ∃ c rest, l.text = c :: rest ∧
      (c = octet '*' ∨ isDigit c = true ∨ isSymbolStart c = true) := by
  cases l with
  | decimal digits =>
      obtain ⟨hne, hdigits⟩ := hl
      cases digits with
      | nil => exact absurd rfl hne
      | cons c rest =>
          exact ⟨c, rest, rfl, Or.inr (Or.inl (hdigits c List.mem_cons_self))⟩
  | selfDefining kind body =>
      exact ⟨kind, _, rfl,
        Or.inr (Or.inr (start_of_kind (kind_of_wellFormed hl)))⟩
  | lengthOf letter name =>
      exact ⟨letter, _, rfl, Or.inr (Or.inr (start_of_length hl.1))⟩
  | lengthHere letter =>
      exact ⟨letter, _, rfl, Or.inr (Or.inr (start_of_length hl))⟩
  | here => exact ⟨octet '*', [], rfl, Or.inl rfl⟩
  | symbol name =>
      obtain ⟨c, rest, rfl, hc, -⟩ := hl
      exact ⟨c, rest, rfl, Or.inr (Or.inr hc)⟩

/-- The first octet of a term without parentheses. -/
theorem head_leaf {l : Leaf} (hl : l.WellFormed) {d : UInt8}
    (hstar : d ≠ octet '*') (hdigit : isDigit d = false)
    (hstart : isSymbolStart d = false) (rest rest' : Bytes) :
    l.text ++ rest ≠ d :: rest' := by
  obtain ⟨c, more, htext, hc⟩ := head_text hl
  rw [htext, List.cons_append]
  intro heq
  obtain rfl := (List.cons.inj heq).1
  rcases hc with rfl | hc | hc
  · exact hstar rfl
  · simp [hdigit] at hc
  · simp [hstart] at hc

/-- The first octet of a term is no sign. -/
theorem head_term (t : Phrase .term) {d : UInt8}
    (hd : d = octet '+' ∨ d = octet '-') (rest rest' : Bytes) :
    t.yield ++ rest ≠ d :: rest' := by
  cases t with
  | group inner =>
      intro heq
      have hopen := (List.cons.inj heq).1
      rcases hd with rfl | rfl <;> exact absurd hopen (by decide)
  | leaf l hl =>
      rcases hd with rfl | rfl <;>
        exact head_leaf hl (by decide) (by decide) (by decide) _ _

/-- What stands behind a product: the other summands, and what stands behind the
sum. -/
theorem follows_sumTail (t : Phrase .sumTail) {rest : Bytes}
    (h : Category.sumTail.Follows rest) :
    Category.product.Follows (t.yield ++ rest) := by
  cases t with
  | sumEnd => exact h.mono (by simp) (by simp)
  | plus next more =>
      intro d hd
      rw [← Option.some.inj hd]
      exact Or.inr (Or.inl ⟨nofun, nofun, Or.inl rfl⟩)
  | minus next more =>
      intro d hd
      rw [← Option.some.inj hd]
      exact Or.inr (Or.inl ⟨nofun, nofun, Or.inr rfl⟩)

/-- What stands behind a factor: the other factors, and what stands behind the
product. -/
theorem follows_productTail (t : Phrase .productTail)
    {rest : Bytes} (h : Category.productTail.Follows rest) :
    Category.factor.Follows (t.yield ++ rest) := by
  cases t with
  | productEnd => exact h.mono (by simp) (by simp)
  | times next more =>
      intro d hd
      rw [← Option.some.inj hd]
      exact Or.inr (Or.inr ⟨Or.inl rfl, Or.inl rfl⟩)
  | divided next more =>
      intro d hd
      rw [← Option.some.inj hd]
      exact Or.inr (Or.inr ⟨Or.inl rfl, Or.inr rfl⟩)

/-- A closing parenthesis may follow anything. -/
theorem follows_close (c : Category) (rest : Bytes) :
    c.Follows (octet ')' :: rest) := by
  intro d hd
  exact Or.inl (Option.some.inj hd).symm

/-- Anything may end. -/
theorem follows_nil (c : Category) : c.Follows [] := by
  intro d hd
  simp at hd

/-- An operator that goes on with a phrase does not stand behind it. -/
theorem not_follows_sumTail {d : UInt8} (hd : d = octet '+' ∨ d = octet '-')
    (rest : Bytes) :
    ¬ Category.sumTail.Follows (d :: rest) := by
  intro h
  rcases h d rfl with rfl | ⟨-, hnot, -⟩ | ⟨hc | hc, -⟩
  · rcases hd with hd | hd <;> exact absurd hd (by decide)
  · exact hnot rfl
  · simp at hc
  · simp at hc

/-- What goes on as a product does not follow one. -/
theorem not_follows_productTail {d : UInt8} (hd : d = octet '*' ∨ d = octet '/')
    (rest : Bytes) :
    ¬ Category.productTail.Follows (d :: rest) := by
  intro h
  rcases h d rfl with rfl | ⟨-, -, hsign | hsign⟩ | ⟨hc | hc, -⟩
  · rcases hd with hd | hd <;> exact absurd hd (by decide)
  · rcases hd with hd | hd <;> exact absurd (hsign.symm.trans hd) (by decide)
  · rcases hd with hd | hd <;> exact absurd (hsign.symm.trans hd) (by decide)
  · simp at hc
  · simp at hc

/-- Whether a phrase is the only one of its category that a text begins with, if
something stands behind it that does not go on with it. -/
def Reads {c : Category} (p : Phrase c) : Prop :=
  ∀ (q : Phrase c) (rest rest' : Bytes), c.Follows rest → c.Follows rest' →
    p.yield ++ rest = q.yield ++ rest' → p = q ∧ rest = rest'

/-- A phrase and its tail. -/
theorem Reads.append {c c' : Category} {first first' : Phrase c}
    {tail tail' : Phrase c'} {rest rest' : Bytes}
    (hfirst : first.Reads) (htail : tail.Reads)
    (hfollows : ∀ (t : Phrase c') {rest}, c'.Follows rest →
      c.Follows (t.yield ++ rest)) (hrest : c'.Follows rest)
    (hrest' : c'.Follows rest')
    (h : first.yield ++ tail.yield ++ rest =
      first'.yield ++ tail'.yield ++ rest') :
    first = first' ∧ tail = tail' ∧ rest = rest' := by
  simp only [List.append_assoc] at h
  obtain ⟨hsame, hmore⟩ :=
    hfirst first' _ _ (hfollows tail hrest) (hfollows tail' hrest') h
  exact ⟨hsame, htail tail' rest rest' hrest hrest' hmore⟩

/-- Another summand, and the tail behind it. -/
theorem reads_summand {next : Phrase .product} {tail : Phrase .sumTail}
    (hnext : next.Reads) (htail : tail.Reads)
    {d : UInt8} (hd : d = octet '+' ∨ d = octet '-') {q : Phrase .sumTail}
    {rest rest' : Bytes} (hrest : Category.sumTail.Follows rest)
    (hrest' : Category.sumTail.Follows rest')
    (h : d :: (next.yield ++ tail.yield ++ rest) = q.yield ++ rest') :
    ((d = octet '+' ∧ q = .plus next tail) ∨
      (d = octet '-' ∧ q = .minus next tail)) ∧ rest = rest' := by
  cases q with
  | sumEnd =>
      have hbehind : d :: (next.yield ++ tail.yield ++ rest) = rest' := h
      exact absurd (hbehind ▸ hrest') (not_follows_sumTail hd _)
  | plus next' tail' =>
      obtain ⟨hsign, hbehind⟩ := List.cons.inj h
      obtain ⟨rfl, rfl, hmore⟩ :=
        hnext.append htail follows_sumTail hrest hrest' hbehind
      exact ⟨Or.inl ⟨hsign, rfl⟩, hmore⟩
  | minus next' tail' =>
      obtain ⟨hsign, hbehind⟩ := List.cons.inj h
      obtain ⟨rfl, rfl, hmore⟩ :=
        hnext.append htail follows_sumTail hrest hrest' hbehind
      exact ⟨Or.inr ⟨hsign, rfl⟩, hmore⟩

/-- Another factor, and the tail behind it. -/
theorem reads_factor {next : Phrase .factor} {tail : Phrase .productTail}
    (hnext : next.Reads) (htail : tail.Reads)
    {d : UInt8} (hd : d = octet '*' ∨ d = octet '/') {q : Phrase .productTail}
    {rest rest' : Bytes} (hrest : Category.productTail.Follows rest)
    (hrest' : Category.productTail.Follows rest')
    (h : d :: (next.yield ++ tail.yield ++ rest) = q.yield ++ rest') :
    ((d = octet '*' ∧ q = .times next tail) ∨
      (d = octet '/' ∧ q = .divided next tail)) ∧
      rest = rest' := by
  cases q with
  | productEnd =>
      have hbehind : d :: (next.yield ++ tail.yield ++ rest) = rest' := h
      exact absurd (hbehind ▸ hrest') (not_follows_productTail hd _)
  | times next' tail' =>
      obtain ⟨hsign, hbehind⟩ := List.cons.inj h
      obtain ⟨rfl, rfl, hmore⟩ :=
        hnext.append htail follows_productTail hrest hrest' hbehind
      exact ⟨Or.inl ⟨hsign, rfl⟩, hmore⟩
  | divided next' tail' =>
      obtain ⟨hsign, hbehind⟩ := List.cons.inj h
      obtain ⟨rfl, rfl, hmore⟩ :=
        hnext.append htail follows_productTail hrest hrest' hbehind
      exact ⟨Or.inr ⟨hsign, rfl⟩, hmore⟩

/-! One lemma for each rule of the grammar: a phrase made by the rule is read if
its parts are. -/

/-- A sum. -/
theorem reads_sum {first : Phrase .product} {tail : Phrase .sumTail}
    (hfirst : first.Reads) (htail : tail.Reads) :
    (Phrase.sum first tail).Reads := by
  intro q rest rest' hrest hrest' h
  cases q with
  | sum first' tail' =>
      obtain ⟨rfl, rfl, hmore⟩ := hfirst.append htail follows_sumTail
        (hrest.mono (by simp) (by simp)) (hrest'.mono (by simp) (by simp)) h
      exact ⟨rfl, hmore⟩

/-- A sum that does not go on. -/
theorem reads_sumEnd : Phrase.sumEnd.Reads := by
  intro q rest rest' hrest hrest' h
  cases q with
  | sumEnd => exact ⟨rfl, h⟩
  | plus | minus =>
      simp only [yield, List.nil_append, List.cons_append] at h
      exact absurd (h ▸ hrest) (not_follows_sumTail (by simp) _)

/-- A summand behind a plus sign. -/
theorem reads_plus {next : Phrase .product} {tail : Phrase .sumTail}
    (hnext : next.Reads) (htail : tail.Reads) :
    (Phrase.plus next tail).Reads := by
  intro q rest rest' hrest hrest' h
  obtain ⟨⟨-, rfl⟩ | ⟨hother, -⟩, hmore⟩ :=
    reads_summand hnext htail (Or.inl rfl) hrest hrest' h
  · exact ⟨rfl, hmore⟩
  · exact absurd hother (by decide)

/-- A summand behind a minus sign. -/
theorem reads_minus {next : Phrase .product} {tail : Phrase .sumTail}
    (hnext : next.Reads) (htail : tail.Reads) :
    (Phrase.minus next tail).Reads := by
  intro q rest rest' hrest hrest' h
  obtain ⟨⟨hother, -⟩ | ⟨-, rfl⟩, hmore⟩ :=
    reads_summand hnext htail (Or.inr rfl) hrest hrest' h
  · exact absurd hother (by decide)
  · exact ⟨rfl, hmore⟩

/-- A product. -/
theorem reads_product {first : Phrase .factor} {tail : Phrase .productTail}
    (hfirst : first.Reads) (htail : tail.Reads) :
    (Phrase.product first tail).Reads := by
  intro q rest rest' hrest hrest' h
  cases q with
  | product first' tail' =>
      obtain ⟨rfl, rfl, hmore⟩ := hfirst.append htail follows_productTail
        (hrest.mono (by simp) (by simp)) (hrest'.mono (by simp) (by simp)) h
      exact ⟨rfl, hmore⟩

/-- A product that does not go on. -/
theorem reads_productEnd : Phrase.productEnd.Reads := by
  intro q rest rest' hrest hrest' h
  cases q with
  | productEnd => exact ⟨rfl, h⟩
  | times | divided =>
      simp only [yield, List.nil_append, List.cons_append] at h
      exact absurd (h ▸ hrest) (not_follows_productTail (by simp) _)

/-- A factor. -/
theorem reads_times {next : Phrase .factor} {tail : Phrase .productTail}
    (hnext : next.Reads) (htail : tail.Reads) :
    (Phrase.times next tail).Reads := by
  intro q rest rest' hrest hrest' h
  obtain ⟨⟨-, rfl⟩ | ⟨hother, -⟩, hmore⟩ :=
    reads_factor hnext htail (Or.inl rfl) hrest hrest' h
  · exact ⟨rfl, hmore⟩
  · exact absurd hother (by decide)

/-- A divisor. -/
theorem reads_divided {next : Phrase .factor} {tail : Phrase .productTail}
    (hnext : next.Reads) (htail : tail.Reads) :
    (Phrase.divided next tail).Reads := by
  intro q rest rest' hrest hrest' h
  obtain ⟨⟨hother, -⟩ | ⟨-, rfl⟩, hmore⟩ :=
    reads_factor hnext htail (Or.inr rfl) hrest hrest' h
  · exact absurd hother (by decide)
  · exact ⟨rfl, hmore⟩

/-- A plus sign in front of a factor. -/
theorem reads_positive {of : Phrase .factor} (hof : of.Reads) :
    (Phrase.positive of).Reads := by
  intro q rest rest' hrest hrest' h
  cases q with
  | positive of' =>
      obtain ⟨rfl, hmore⟩ := hof of' rest rest' hrest hrest' (List.cons.inj h).2
      exact ⟨rfl, hmore⟩
  | negative of' => exact absurd (List.cons.inj h).1 (by decide)
  | bare term => exact absurd h.symm (head_term term (Or.inl rfl) _ _)

/-- A minus sign in front of a factor. -/
theorem reads_negative {of : Phrase .factor} (hof : of.Reads) :
    (Phrase.negative of).Reads := by
  intro q rest rest' hrest hrest' h
  cases q with
  | positive of' => exact absurd (List.cons.inj h).1 (by decide)
  | negative of' =>
      obtain ⟨rfl, hmore⟩ := hof of' rest rest' hrest hrest' (List.cons.inj h).2
      exact ⟨rfl, hmore⟩
  | bare term => exact absurd h.symm (head_term term (Or.inr rfl) _ _)

/-- A factor without a sign: terms begin with none. -/
theorem reads_bare {term : Phrase .term} (hterm : term.Reads) :
    (Phrase.bare term).Reads := by
  intro q rest rest' hrest hrest' h
  cases q with
  | positive of' => exact absurd h (head_term term (Or.inl rfl) _ _)
  | negative of' => exact absurd h (head_term term (Or.inr rfl) _ _)
  | bare term' =>
      obtain ⟨rfl, hmore⟩ :=
        hterm term' rest rest' (hrest.mono (by simp) (by simp))
          (hrest'.mono (by simp) (by simp)) h
      exact ⟨rfl, hmore⟩

/-- A sum in parentheses: it ends at the parenthesis. -/
theorem reads_group {inner : Phrase .sum} (hinner : inner.Reads) :
    (Phrase.group inner).Reads := by
  intro q rest rest' hrest hrest' h
  cases q with
  | group inner' =>
      simp only [yield, List.cons_append, List.append_assoc, List.cons.injEq,
        true_and, List.nil_append] at h
      obtain ⟨rfl, hmore⟩ :=
        hinner inner' _ _ (follows_close _ _) (follows_close _ _) h
      exact ⟨rfl, (List.cons.inj hmore).2⟩
  | leaf l hl =>
      exact absurd h.symm (head_leaf hl (by decide) (by decide) (by decide) _ _)

/-- A term: it is what is read off the text. -/
theorem reads_leaf {l : Leaf} (hl : l.WellFormed) :
    (Phrase.leaf l hl).Reads := by
  intro q rest rest' hrest hrest' h
  cases q with
  | group inner' =>
      exact absurd h (head_leaf hl (by decide) (by decide) (by decide) _ _)
  | leaf l' hl' =>
      -- both are what is read off the same text
      have hread :=
        (Leaf.read_text hl hrest).symm.trans ((congrArg Leaf.read h).trans
          (Leaf.read_text hl' hrest'))
      obtain ⟨rfl, rfl⟩ := Prod.mk.inj hread
      exact ⟨rfl, rfl⟩

/-- **The beginning of a text is a phrase in one way only.** -/
theorem reads {c : Category} (p : Phrase c) : p.Reads := by
  induction p with
  | sum first tail ihFirst ihTail => exact reads_sum ihFirst ihTail
  | sumEnd => exact reads_sumEnd
  | plus next tail ihNext ihTail => exact reads_plus ihNext ihTail
  | minus next tail ihNext ihTail => exact reads_minus ihNext ihTail
  | product first tail ihFirst ihTail => exact reads_product ihFirst ihTail
  | productEnd => exact reads_productEnd
  | times next tail ihNext ihTail => exact reads_times ihNext ihTail
  | divided next tail ihNext ihTail => exact reads_divided ihNext ihTail
  | positive of ih => exact reads_positive ih
  | negative of ih => exact reads_negative ih
  | bare term ih => exact reads_bare ih
  | group inner ih => exact reads_group ih
  | leaf l hl => exact reads_leaf hl

/-- **No text has two derivations.** -/
theorem yield_injective {c : Category} {p q : Phrase c}
    (h : p.yield = q.yield) : p = q :=
  (reads p q [] [] (follows_nil c) (follows_nil c) (congrArg (· ++ []) h)).1

end Phrase

end Expression

end System370
