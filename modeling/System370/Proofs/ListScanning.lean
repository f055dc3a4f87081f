import System370.Proofs.ContinuedFields

/-!
# Lists and groups

A list is cut at its commas, an operand field too, and the end of a group is
found by its parentheses.  All three scanners skip strings, look one or two
octets back to tell the apostrophe of a length attribute from one that opens a
string, and look one octet ahead.  A grammar says what they should find: a text
is taken apart into single octets, apostrophes of length attributes and whole
strings (`Scan.Lexed`), and its parentheses pair up (`Scan.Nested`).

What stands next to a comma or a parenthesis is read as if nothing stood there
(`Separates.mark_separated`).  So the pieces of a text are what they are on
their own.

* `Scan.splitList_eq_ok_iff`: the items of a list are such texts, with commas
  between them;
* `Scan.closingParen_eq_some_iff`: a group ends where such a text ends;
* `Scan.list_scanners`: so lists, operand fields and groups are taken apart
  alike.
-/

namespace System370

namespace Scan

/-! ### What stands next to a separator -/

/-- Whether an octet says nothing about an apostrophe next to it. -/
def Separates (c : UInt8) : Prop :=
  isSymbolChar c = false ∧ c ≠ quote ∧ c ≠ 0x2A

theorem separates_comma : Separates comma := ⟨by decide, by decide, by decide⟩

theorem separates_openParen : Separates openParen :=
  ⟨by decide, by decide, by decide⟩

theorem separates_closeParen : Separates closeParen :=
  ⟨by decide, by decide, by decide⟩

section Separates

variable {c : UInt8}

/-- Nothing in front of a separator is looked at. -/
theorem Separates.attributeQuote_append (hc : Separates c)
    (before behind : Bytes) (next : Option UInt8) :
    attributeQuote (before ++ c :: behind) next =
      attributeQuote before next := by
  have hletter : c ≠ 0x4C ∧ c ≠ 0x6C := by
    constructor
    · intro hl
      exact absurd hc.1 (by rw [hl]; decide)
    · intro hl
      exact absurd hc.1 (by rw [hl]; decide)
  cases before with
  | nil => cases behind <;> simp [attributeQuote, hletter.1, hletter.2]
  | cons a more =>
      cases more with
      | nil => simp [attributeQuote, hc.1]
      | cons b more => rfl

/-- A text behind a separator has the marks that it has on its own. -/
theorem Separates.mark_behind (hc : Separates c) (before behind : Bytes)
    (state : Quoting) (text : Bytes) :
    mark (before ++ c :: behind) state text = mark before state text := by
  induction text generalizing before state with
  | nil => rfl
  | cons d rest ih =>
      have hstep : state.step (before ++ c :: behind) rest.head? d =
          state.step before rest.head? d := by
        simp only [Quoting.step, hc.attributeQuote_append]
      simp only [mark, hstep, ← List.cons_append, ih]

/-- A text in front of a separator has the marks that it has on its own. -/
theorem Separates.markAhead (hc : Separates c) (before : Bytes)
    (state : Quoting) (text : Bytes) :
    Scan.markAhead (some c) before state text = mark before state text := by
  obtain ⟨hsymbol, hquote, hstar⟩ := hc
  have hstart : isSymbolStart c = false := by
    cases h : isSymbolStart c with
    | false => rfl
    | true => simp [isSymbolChar, h] at hsymbol
  have hnext : ∀ (before : Bytes) (state : Quoting) (d : UInt8),
      state.step before (some c) d = state.step before none d := by
    intro before state d
    cases state <;> simp [Quoting.step, attributeQuote, hstart, hquote, hstar]
  induction text generalizing before state with
  | nil => rfl
  | cons d rest ih =>
      have hstep : state.step before (rest.head?.or (some c)) d =
          state.step before rest.head? d := by
        cases rest with
        | nil => exact hnext before state d
        | cons e more => rfl
      simp only [Scan.markAhead, mark, hstep, ih]

/-- A separator outside strings cuts a text: in front of it the text is marked
on its own. -/
theorem Separates.mark_append (hc : Separates c) (text rest : Bytes) :
    mark [] .outside (text ++ c :: rest) =
      ((mark [] .outside text).1 ++
        (mark text.reverse (mark [] .outside text).2 (c :: rest)).1,
        (mark text.reverse (mark [] .outside text).2 (c :: rest)).2) := by
  have happend := markAhead_append none [] .outside text (c :: rest)
  rw [markAhead_none, markAhead_none, List.append_nil, List.head?_cons,
    Option.some_or, hc.markAhead] at happend
  exact happend

/-- **A text with a separator in it**, outside strings, has the marks of the
texts on its two sides. -/
theorem Separates.mark_separated (hc : Separates c) {text : Bytes}
    (h : (mark [] .outside text).2 = .outside) (rest : Bytes) :
    mark [] .outside (text ++ c :: rest) =
      ((mark [] .outside text).1 ++ ⟨c, false⟩ :: (mark [] .outside rest).1,
        (mark [] .outside rest).2) := by
  have hbehind := hc.mark_behind [] text.reverse .outside rest
  rw [List.nil_append] at hbehind
  rw [hc.mark_append, h, mark]
  simp only [Quoting.step, hc.2.1, false_and, if_false, hbehind]

/-- A separator outside strings has a text on either side of it. -/
theorem Separates.exists_separated (hc : Separates c) {text : Bytes}
    {ms ms' : List Mark} {final : Quoting}
    (h : mark [] .outside text = (ms ++ ⟨c, false⟩ :: ms', final)) :
    ∃ front back,
    text = front ++ c :: back ∧ mark [] .outside front = (ms, .outside) ∧
      mark [] .outside back = (ms', final) := by
  have hoctets := octets_mark [] .outside text
  rw [h, List.map_append, List.map_cons] at hoctets
  refine ⟨_, _, hoctets.symm, ?_⟩
  rw [← hoctets, hc.mark_append, mark] at h
  obtain ⟨hmarks, -⟩ := Prod.mk.inj h
  have hlength : (mark [] .outside (ms.map (·.octet))).1.length =
      ms.length := by
    rw [← List.length_map (f := Mark.octet), octets_mark, List.length_map]
  obtain ⟨hfront, hrest⟩ := List.append_inj hmarks hlength
  have hquoted := congrArg Mark.quoted (List.cons.inj hrest).1
  -- the separator is outside strings only if the text in front of it ends there
  have houtside : (mark [] .outside (ms.map (·.octet))).2 = .outside := by
    cases hstate : (mark [] .outside (ms.map (·.octet))).2 with
    | outside => rfl
    | inside => simp [hstate, Quoting.step, hc.2.1] at hquoted
    | doubled => simp [hstate, Quoting.step] at hquoted
  refine ⟨Prod.ext hfront houtside, ?_⟩
  have hboth := hc.mark_separated houtside (ms'.map (·.octet))
  rw [hc.mark_append, mark, h] at hboth
  obtain ⟨hmarks', hfinal⟩ := Prod.mk.inj hboth
  rw [hfront] at hmarks'
  exact Prod.ext
    (List.cons.inj (List.append_cancel_left hmarks')).2.symm hfinal.symm

end Separates

/-! ### Strings -/

/-- The marks of a text whose strings all have an end.  The text is taken apart
into octets that are no apostrophes, apostrophes of length attributes, and whole
strings.  `before` is the text in front of it, nearest octet first. -/
inductive Lexed : Bytes → Bytes → List Mark → Prop where
  | nil {before : Bytes} : Lexed before [] []
  | octet {before rest : Bytes} {ms : List Mark} {c : UInt8}
      (hc : c ≠ quote) (more : Lexed (c :: before) rest ms) :
        Lexed before (c :: rest) (⟨c, false⟩ :: ms)
  | apostrophe {before rest : Bytes}
      {ms : List Mark} (belongs : attributeQuote before rest.head? = true)
      (more : Lexed (quote :: before) rest ms) :
        Lexed before (quote :: rest) (⟨quote, false⟩ :: ms)
  | string {before body rest : Bytes} {ms : List Mark}
      (opens : attributeQuote before (body ++ quote :: rest).head? = false)
      (doubled : Expression.Doubled body) (closes : rest.head? ≠ some quote)
      (more : Lexed (quote :: (body.reverse ++ quote :: before)) rest ms) :
      Lexed before (quote :: (body ++ quote :: rest))
        (⟨quote, true⟩ :: (body.map (⟨·, true⟩) ++ ⟨quote, true⟩ :: ms))

/-- Whether every apostrophe that opens a string of a text has one that closes
it. -/
def Closed (text : Bytes) : Prop := ∃ ms, Lexed [] text ms

/-- The scanner comes out of every string, and marks its octets. -/
theorem Lexed.mark_eq {before text : Bytes} {ms : List Mark}
    (h : Lexed before text ms) :
    mark before .outside text = (ms, .outside) := by
  induction h with
  | nil => rfl
  | octet hc more ih => simp [mark, Quoting.step, hc, ih]
  | apostrophe belongs more ih => simp [mark, Quoting.step, belongs, ih]
  | @string before body rest ms opens doubled closes more ih =>
      have hends : ∀ d ∈ rest.head?, d ≠ quote := by
        intro d hd hquote
        exact closes (hd.trans (congrArg some hquote))
      rw [mark]
      simp only [Quoting.step, opens, and_self, if_true]
      rw [mark_inside doubled hends, ih]

/-- A separator behind a text that is lexed stands outside strings. -/
theorem Separates.mark_lexed {c : UInt8} (hc : Separates c) {text : Bytes}
    {ms : List Mark} (h : Lexed [] text ms) (rest : Bytes) :
    mark [] .outside (text ++ c :: rest) =
      (ms ++ ⟨c, false⟩ :: (mark [] .outside rest).1,
      (mark [] .outside rest).2) := by
  have hmarks := h.mark_eq
  rw [hc.mark_separated (congrArg Prod.snd hmarks), hmarks]

/-- A scanner that comes out of a string has found its end. -/
theorem exists_closing : ∀ {text : Bytes} {before : Bytes},
    (mark before .inside text).2 = .outside →
      ∃ body rest, text = body ++ quote :: rest ∧ Expression.Doubled body ∧
      rest.head? ≠ some quote
  | [], before, h => by simp [mark] at h
  | c :: rest, before, h => by
      by_cases hc : c = quote
      · subst hc
        cases rest with
        | nil => exact ⟨[], [], rfl, .nil, by simp⟩
        | cons d more =>
            by_cases hd : d = quote
            · subst hd
              have hmore : (mark (quote :: quote :: before) .inside more).2 =
                  .outside := by
                simpa [mark, Quoting.step] using h
              obtain ⟨body, after, rfl, hdoubled, hafter⟩ :=
                exists_closing hmore
              exact ⟨quote :: quote :: body, after, rfl, .pair hdoubled, hafter⟩
            · exact ⟨[], d :: more, rfl, .nil, by simpa using hd⟩
      · have hrest : (mark (c :: before) .inside rest).2 = .outside := by
          simpa [mark, Quoting.step, hc] using h
        obtain ⟨body, after, rfl, hdoubled, hafter⟩ := exists_closing hrest
        exact ⟨c :: body, after, rfl, .octet hc hdoubled, hafter⟩

/-- A text that does not end inside a string has an end for every string. -/
theorem lexed_of_mark {before text : Bytes}
    {ms : List Mark} (h : mark before .outside text = (ms, .outside)) :
    Lexed before text ms := by
  -- a string is read as a whole, so the induction is on the length of the text
  induction hlength : text.length using Nat.strong_induction_on
    generalizing before text ms with
  | h n ih =>
      subst hlength
      cases text with
      | nil =>
          obtain rfl := (Prod.mk.inj h).1
          exact .nil
      | cons c rest =>
          by_cases hc : c = quote
          · subst hc
            cases hopens : attributeQuote before rest.head? with
            | true =>
                simp only [mark, Quoting.step, hopens, Bool.true_eq_false,
                  and_false, if_false] at h
                obtain ⟨rfl, hfinal⟩ := Prod.mk.inj h
                exact .apostrophe hopens
                  (ih rest.length (by simp) (Prod.ext rfl hfinal) rfl)
            | false =>
                simp only [mark, Quoting.step, hopens, and_self, if_true] at h
                obtain ⟨rfl, hfinal⟩ := Prod.mk.inj h
                obtain ⟨body, after, rfl, hdoubled, hafter⟩ :=
                  exists_closing hfinal
                have hends : ∀ d ∈ after.head?, d ≠ quote := by
                  intro d hd hquote
                  exact hafter (hd.trans (congrArg some hquote))
                rw [mark_inside hdoubled hends] at hfinal ⊢
                exact .string hopens hdoubled hafter
                  (ih after.length (by simp; omega) (Prod.ext rfl hfinal) rfl)
          · simp only [mark, Quoting.step, hc, false_and, if_false] at h
            obtain ⟨rfl, hfinal⟩ := Prod.mk.inj h
            exact .octet hc (ih rest.length (by simp) (Prod.ext rfl hfinal) rfl)

/-- A text does not end in a string if it is closed. -/
theorem endsInString_eq_false {text : Bytes} : endsInString text = false ↔
    Closed text := by
  rw [endsInString, decide_eq_false_iff_not, not_not]
  constructor
  · intro h
    exact ⟨_, lexed_of_mark (Prod.ext rfl h)⟩
  · rintro ⟨ms, hms⟩
    rw [hms.mark_eq]

/-! ### Parentheses -/

/-- Marks whose parentheses outside strings pair up.  Commas stand in them
anywhere, or inside parentheses only. -/
inductive Nested : Bool → List Mark → Prop where
  | nil {commas : Bool} : Nested commas []
  | octet {commas : Bool} {m : Mark} {rest : List Mark}
      (hopen : m.is openParen = false) (hclose : m.is closeParen = false)
        (hcomma : m.is comma = true → commas = true)
      (more : Nested commas rest) : Nested commas (m :: rest)
  | group {commas : Bool} {inner rest : List Mark}
      (inside : Nested true inner) (more : Nested commas rest) :
      Nested commas
        (⟨openParen, false⟩ :: (inner ++ ⟨closeParen, false⟩ :: rest))

/-- The octets of marks. -/
abbrev octets (ms : List Mark) : Bytes := ms.map (·.octet)

/-- A mark that is an octet is that octet, outside strings. -/
theorem Mark.eq_of_is {m : Mark} {c : UInt8} (h : m.is c = true) :
    m = ⟨c, false⟩ := by
  obtain ⟨octet, quoted⟩ := m
  simp only [Mark.is, Bool.and_eq_true, decide_eq_true_eq,
    Bool.not_eq_true'] at h
  rw [h.1, h.2]

/-- What is nested is balanced. -/
theorem Nested.balanced {commas : Bool} {ms : List Mark}
    (h : Nested commas ms) : Balanced ms := by
  induction h with
  | nil => exact balanced_nil
  | octet hopen hclose hcomma more ih =>
      exact (balanced_single hopen hclose).append ih
  | @group commas inner rest inside more ihInside ihMore =>
      have hboth := (balanced_group ihInside).append ihMore
      simpa [List.append_assoc] using hboth

/-- A search that comes to an end has passed over a group. -/
theorem exists_nested_of_closeAt {depth : Nat} {ms : List Mark}
    {i : Nat} (h : closeAt (depth + 1 : Nat) ms = some i) :
    ∃ inner rest,
    ms = inner ++ ⟨closeParen, false⟩ :: rest ∧ Nested true inner ∧
      (0 < depth → ∃ j, closeAt depth rest = some j) := by
  induction hlength : ms.length using Nat.strong_induction_on
    generalizing depth ms i with
  | h n ih =>
      subst hlength
      cases ms with
      | nil => simp [closeAt] at h
      | cons m rest =>
          rw [closeAt] at h
          split at h
          · -- a group in the group, and what is left of the group behind it
            rename_i hopen
            obtain rfl := Mark.eq_of_is hopen
            obtain ⟨j, hj, rfl⟩ := Option.map_eq_some_iff.mp h
            obtain ⟨inner, after, rfl, hinner, hafter⟩ :=
              ih rest.length (by simp) hj rfl
            obtain ⟨k, hk⟩ := hafter (by omega)
            obtain ⟨others, last, rfl, hothers, hlast⟩ :=
              ih after.length (by simp; omega) hk rfl
            exact ⟨⟨openParen, false⟩ ::
              (inner ++ ⟨closeParen, false⟩ :: others), last, by simp,
              .group hinner hothers, hlast⟩
          · rename_i hopen
            split at h
            · rename_i hclose
              obtain rfl := Mark.eq_of_is hclose
              refine ⟨[], rest, rfl, .nil, fun hdepth => ?_⟩
              rw [if_neg (by omega)] at h
              obtain ⟨j, hj, -⟩ := Option.map_eq_some_iff.mp h
              exact ⟨j, by simpa using hj⟩
            · rename_i hclose
              obtain ⟨j, hj, rfl⟩ := Option.map_eq_some_iff.mp h
              obtain ⟨inner, after, rfl, hinner, hafter⟩ :=
                ih rest.length (by simp) hj rfl
              exact ⟨m :: inner, after, rfl,
                .octet (by simpa using hopen) (by simpa using hclose)
                (fun _ => rfl) hinner, hafter⟩

/-- **The search for the end of a group** finds it where the parentheses in
front of it pair up. -/
theorem closeAt_one_iff {ms : List Mark} {i : Nat} : closeAt 1 ms = some i ↔
    ∃ inner rest, ms = inner ++ ⟨closeParen, false⟩ :: rest ∧
      Nested true inner ∧ i = inner.length := by
  have hfound : ∀ {inner : List Mark}, Nested true inner → ∀ rest,
      closeAt 1 (inner ++ ⟨closeParen, false⟩ :: rest) = some inner.length := by
    intro inner hinner rest
    rw [hinner.balanced 1 (by decide), closeAt, if_neg (by decide),
      if_pos (by decide), if_pos rfl]
    simp
  constructor
  · intro h
    obtain ⟨inner, rest, rfl, hinner, -⟩ :=
      exists_nested_of_closeAt (show closeAt (0 + 1 : Nat) ms = some i from h)
    exact ⟨inner, rest, rfl, hinner,
      Option.some.inj (h.symm.trans (hfound hinner rest))⟩
  · rintro ⟨inner, rest, rfl, hinner, rfl⟩
    exact hfound hinner rest

/-! ### Commas -/

/-- Cutting passes over marks without commas of their own. -/
theorem Nested.splitFrom {commas : Bool} {ms : List Mark} (h : Nested commas ms)
    {depth : Nat} (hdepth : commas = true → 0 < depth)
    (position : Nat) (piece : Bytes) (rest : List Mark) :
    Scan.splitFrom depth position piece (ms ++ rest) =
      Scan.splitFrom depth (position + ms.length)
        ((octets ms).reverse ++ piece) rest := by
  induction h generalizing depth position piece rest with
  | nil => rfl
  | @octet commas m ms hopen hclose hcomma more ih =>
      have hnot : ¬ (m.is comma = true ∧ depth = 0) := by
        rintro ⟨hm, rfl⟩
        exact absurd (hdepth (hcomma hm)) (by omega)
      rw [List.cons_append, Scan.splitFrom, if_neg (by simp [hopen]),
        if_neg (by simp [hclose]), if_neg hnot, ih hdepth]
      simp only [List.length_cons, octets, List.map_cons, List.reverse_cons,
        List.append_assoc, List.singleton_append]
      congr 1
      omega
  | @group commas inner ms inside more ihInside ihMore =>
      rw [List.cons_append, List.append_assoc, Scan.splitFrom,
        if_pos (by decide), ihInside (by omega), List.cons_append,
        Scan.splitFrom, if_neg (by decide), if_pos (by decide),
        if_neg (by omega), Nat.add_sub_cancel, ihMore hdepth]
      simp only [List.length_cons, List.length_append, octets, List.map_cons,
        List.map_append, List.reverse_cons, List.reverse_append,
        List.append_assoc, List.singleton_append]
      congr 1
      omega

/-- Cutting that comes to an end comes to the end of every group. -/
theorem exists_closeAt_of_splitFrom {depth position : Nat} {piece : Bytes}
    {ms : List Mark} {pieces : List Bytes}
    (h : splitFrom (depth + 1) position piece ms = (pieces, .balanced)) :
    ∃ i, closeAt (depth + 1 : Nat) ms = some i := by
  have hlater : ∀ {found : Option Nat}, (∃ i, found = some i) → ∃ i,
      found.map (· + 1) = some i := by
    rintro _ ⟨i, rfl⟩
    exact ⟨i + 1, rfl⟩
  induction ms generalizing depth position piece with
  | nil => simp [splitFrom] at h
  | cons m rest ih =>
      rw [splitFrom] at h
      rw [closeAt]
      split at h
      · rename_i hopen
        rw [if_pos hopen]
        exact hlater (ih h)
      · rename_i hopen
        rw [if_neg hopen]
        split at h
        · rename_i hclose
          rw [if_pos hclose]
          rw [if_neg (by omega), Nat.add_sub_cancel] at h
          cases depth with
          | zero => exact ⟨0, rfl⟩
          | succ depth =>
              have hless : ((depth + 1 + 1 : Nat) : Int) - 1 =
                  (depth + 1 : Nat) := by
                omega
              rw [if_neg (by omega), hless]
              exact hlater (ih h)
        · rename_i hclose
          rw [if_neg (by omega)] at h
          rw [if_neg hclose]
          exact hlater (ih h)

/-- A comma cuts the piece in front of it off. -/
theorem exists_others_of_comma {position : Nat} {piece : Bytes}
    {rest : List Mark} {pieces : List Bytes}
    (h : splitFrom 0 position piece (⟨comma, false⟩ :: rest) =
      (pieces, .balanced)) :
    ∃ others, splitFrom 0 (position + 1) [] rest = (others, .balanced) ∧
      pieces = piece.reverse :: others := by
  rw [splitFrom, if_neg (by decide), if_neg (by decide),
    if_pos ⟨by decide, rfl⟩] at h
  cases hrest : splitFrom 0 (position + 1) [] rest with
  | mk others balance =>
      rw [hrest] at h
      cases balance with
      | missing => cases h
      | excess offset => cases h
      | balanced => exact ⟨others, rfl, (Prod.mk.inj h).1.symm⟩

/-- The first piece that cutting finds, and those behind it. -/
theorem exists_front_of_splitFrom {position : Nat} {piece : Bytes}
    {ms : List Mark} {pieces : List Bytes}
    (h : splitFrom 0 position piece ms = (pieces, .balanced)) :
    ∃ front, Nested false front ∧
      (ms = front ∧ pieces = [piece.reverse ++ octets front] ∨
        ∃ rest others position', ms = front ++ ⟨comma, false⟩ :: rest ∧
          splitFrom 0 position' [] rest = (others, .balanced) ∧
          pieces = (piece.reverse ++ octets front) :: others) := by
  induction hlength : ms.length using Nat.strong_induction_on
    generalizing position piece ms with
  | h n ih =>
      subst hlength
      cases ms with
      | nil =>
          obtain rfl := (Prod.mk.inj h).1
          exact ⟨[], .nil, Or.inl ⟨rfl, by simp⟩⟩
      | cons m rest =>
          have hcut := h
          rw [splitFrom] at h
          split at h
          · -- the group that begins here, and what follows it
            rename_i hopen
            obtain rfl := Mark.eq_of_is hopen
            obtain ⟨i, hi⟩ := exists_closeAt_of_splitFrom h
            obtain ⟨inner, after, rfl, hinner, -⟩ := exists_nested_of_closeAt hi
            rw [hinner.splitFrom (by omega), splitFrom, if_neg (by decide),
              if_pos (by decide), if_neg (by omega), Nat.add_sub_cancel] at h
            obtain ⟨front, hfront, hcases⟩ :=
              ih after.length (by simp; omega) h rfl
            refine ⟨⟨openParen, false⟩ ::
              (inner ++ ⟨closeParen, false⟩ :: front), .group hinner hfront, ?_⟩
            rcases hcases with
              ⟨rfl, rfl⟩ | ⟨more, others, position', rfl, hmore, rfl⟩
            · exact Or.inl ⟨rfl, by simp⟩
            · exact Or.inr ⟨more, others, position', by simp, hmore, by simp⟩
          · rename_i hopen
            split at h
            · rw [if_pos rfl] at h
              cases h
            · rename_i hclose
              split at h
              · rename_i hcomma
                obtain rfl := Mark.eq_of_is hcomma.1
                obtain ⟨others, hothers, rfl⟩ := exists_others_of_comma hcut
                exact ⟨[], .nil,
                  Or.inr ⟨rest, others, position + 1, rfl, hothers, by simp⟩⟩
              · rename_i hcomma
                obtain ⟨front, hfront, hcases⟩ := ih rest.length (by simp) h rfl
                refine ⟨m :: front,
                  .octet (by simpa using hopen) (by simpa using hclose)
                  (fun hm => absurd ⟨hm, rfl⟩ hcomma) hfront, ?_⟩
                rcases hcases with
                  ⟨rfl, rfl⟩ | ⟨more, others, position', rfl, hmore, rfl⟩
                · exact Or.inl ⟨rfl, by simp⟩
                · exact Or.inr ⟨more, others, position', by simp,
                    hmore, by simp⟩

/-- Marks whose parentheses pair up can be cut. -/
theorem Nested.exists_pieces {commas : Bool} {ms : List Mark}
    (h : Nested commas ms) (position : Nat) (piece : Bytes) :
    ∃ pieces, Scan.splitFrom 0 position piece ms = (pieces, .balanced) := by
  induction h generalizing position piece with
  | nil => exact ⟨[piece.reverse], rfl⟩
  | @octet commas m ms hopen hclose hcomma more ih =>
      rw [Scan.splitFrom, if_neg (by simp [hopen]), if_neg (by simp [hclose])]
      split
      · obtain ⟨pieces, hpieces⟩ := ih (position + 1) []
        exact ⟨piece.reverse :: pieces, by rw [hpieces]⟩
      · exact ih (position + 1) (m.octet :: piece)
  | @group commas inner ms inside more ihInside ihMore =>
      rw [Scan.splitFrom, if_pos (by decide), inside.splitFrom (by omega),
        Scan.splitFrom, if_neg (by decide), if_pos (by decide),
        if_neg (by omega), Nat.add_sub_cancel]
      exact ihMore _ _

/-! ### Lists, operand fields and groups -/

/-- Whether the strings of a text have ends and its parentheses pair up, with
commas anywhere or in strings and parentheses only. -/
def Piece (commas : Bool) (text : Bytes) : Prop :=
  ∃ ms, Lexed [] text ms ∧ Nested commas ms

/-- The marks of a text are those of its octets. -/
theorem Lexed.octets_eq {text : Bytes} {ms : List Mark} (h : Lexed [] text ms) :
    octets ms = text := by
  have hoctets := octets_mark [] .outside text
  rwa [h.mark_eq] at hoctets

/-- Pieces with commas between them are cut where the commas are. -/
theorem splitFrom_join {items : List Bytes} (hne : items ≠ [])
    (h : ∀ item ∈ items, Piece false item) (position : Nat) :
    ∃ ms, mark [] .outside (Bytes.join [comma] items) = (ms, .outside) ∧
    splitFrom 0 position [] ms = (items, .balanced) := by
  induction items generalizing position with
  | nil => exact absurd rfl hne
  | cons item rest ih =>
      obtain ⟨⟨ms, hlexed, hnested⟩, hrest⟩ := List.forall_mem_cons.mp h
      have hcut :=
        hnested.splitFrom (by simp : false = true → 0 < 0) position []
      rw [hlexed.octets_eq, List.append_nil] at hcut
      by_cases hlast : rest = []
      · subst hlast
        refine ⟨ms, hlexed.mark_eq, ?_⟩
        have hend := hcut []
        rw [List.append_nil, splitFrom, if_pos rfl,
          List.reverse_reverse] at hend
        exact hend
      · obtain ⟨others, hothers, hpieces⟩ :=
          ih hlast hrest (position + ms.length + 1)
        have hjoin : Bytes.join [comma] (item :: rest) =
            item ++ comma :: Bytes.join [comma] rest := by
          rw [Bytes.join.eq_3 _ _ _ hlast, List.append_assoc,
            List.singleton_append]
        refine ⟨ms ++ ⟨comma, false⟩ :: others, ?_, ?_⟩
        · rw [hjoin, separates_comma.mark_lexed hlexed, hothers]
        · rw [hcut, splitFrom, if_neg (by decide), if_neg (by decide),
            if_pos ⟨by decide, rfl⟩, hpieces, List.reverse_reverse]

/-- What is cut are pieces with commas between them. -/
theorem join_of_splitFrom {text : Bytes} {ms : List Mark} {items : List Bytes}
    {position : Nat} (hmarks : mark [] .outside text = (ms, .outside))
    (h : splitFrom 0 position [] ms = (items, .balanced)) :
    items ≠ [] ∧ Bytes.join [comma] items = text ∧ ∀ item ∈ items,
    Piece false item := by
  induction hlength : text.length using Nat.strong_induction_on
    generalizing text ms items position with
  | h n ih =>
      subst hlength
      obtain ⟨front, hfront, hcases⟩ := exists_front_of_splitFrom h
      rcases hcases with ⟨rfl, rfl⟩ | ⟨rest, others, position', rfl, hrest, rfl⟩
      · have hlexed := lexed_of_mark hmarks
        rw [List.reverse_nil, List.nil_append, hlexed.octets_eq]
        refine ⟨by simp, rfl, fun item hitem => ?_⟩
        rw [List.mem_singleton.mp hitem]
        exact ⟨ms, hlexed, hfront⟩
      · obtain ⟨item, back, rfl, hitem, hback⟩ :=
          separates_comma.exists_separated hmarks
        have hlexed := lexed_of_mark hitem
        obtain ⟨hne, hjoin, hpieces⟩ :=
          ih back.length (by simp; omega) hback hrest rfl
        rw [List.reverse_nil, List.nil_append, hlexed.octets_eq]
        refine ⟨by simp, ?_,
          List.forall_mem_cons.mpr ⟨⟨front, hlexed, hfront⟩, hpieces⟩⟩
        rw [Bytes.join.eq_3 _ _ _ hne, hjoin, List.append_assoc,
          List.singleton_append]

/-- **Cutting a text at its commas** gives the pieces that it is put together
from. -/
theorem splitAtCommas_eq_iff {text : Bytes} {items : List Bytes} :
    splitAtCommas text = (items, .balanced) ∧ Closed text ↔
      items ≠ [] ∧ Bytes.join [comma] items = text ∧ ∀ item ∈ items,
      Piece false item := by
  constructor
  · rintro ⟨hsplit, ms, hlexed⟩
    have hmarks := hlexed.mark_eq
    rw [splitAtCommas_eq, marks, hmarks] at hsplit
    exact join_of_splitFrom hmarks hsplit
  · rintro ⟨hne, rfl, hpieces⟩
    obtain ⟨ms, hmarks, hsplit⟩ := splitFrom_join hne hpieces 0
    refine ⟨?_, ms, lexed_of_mark hmarks⟩
    rw [splitAtCommas_eq, marks, hmarks, hsplit]

/-- A list is split if its parentheses match, its strings are closed and none of
its items is empty. -/
theorem splitList_eq_ok {text : Bytes} {items : List Bytes} :
    splitList text = .ok items ↔
    splitAtCommas text = (items, .balanced) ∧ Closed text ∧ [] ∉ items := by
  rw [← endsInString_eq_false, splitList_eq]
  cases splitAtCommas text with
  | mk pieces balance =>
      have hany : ∀ pieces : List Bytes, pieces.any (· = []) = true ↔
          [] ∈ pieces := by
        simp
      cases balance with
      | balanced =>
          cases endsInString text with
          | true => simp [listOf]
          | false =>
              simp only [listOf, Bool.false_eq_true, if_false,
                reduceCtorEq, hany]
              grind
      | excess offset => simp [listOf]
      | missing => cases endsInString text <;> simp [listOf]

/-- An empty item is the complaint if nothing else is wrong. -/
theorem splitList_eq_emptyItem {text : Bytes} :
    splitList text = .error .emptyItem ↔
    ∃ items, splitAtCommas text = (items, .balanced) ∧ Closed text ∧
      [] ∈ items := by
  rw [← endsInString_eq_false, splitList_eq]
  cases splitAtCommas text with
  | mk pieces balance =>
      have hany : ∀ pieces : List Bytes, pieces.any (· = []) = true ↔
          [] ∈ pieces := by
        simp
      cases balance <;> cases endsInString text <;> simp [listOf, hany]

/-- **The items of a list** are pieces of text that are not empty, with commas
between them. -/
theorem splitList_eq_ok_iff {text : Bytes} {items : List Bytes} :
    splitList text = .ok items ↔
    items ≠ [] ∧ Bytes.join [comma] items = text ∧ ∀ item ∈ items,
    item ≠ [] ∧ Piece false item := by
  rw [splitList_eq_ok, ← and_assoc, splitAtCommas_eq_iff, and_assoc, and_assoc]
  refine and_congr_right fun _ => and_congr_right fun _ => ?_
  constructor
  · rintro ⟨hpieces, hempty⟩ item hitem
    exact ⟨fun h => hempty (h ▸ hitem), hpieces item hitem⟩
  · intro h
    exact ⟨fun item hitem => (h item hitem).2,
      fun hempty => (h [] hempty).1 rfl⟩

/-- **The end of a group** is where a piece of text ends, with commas anywhere
in it. -/
theorem closingParen_eq_some_iff {text : Bytes} {i : Nat} :
    closingParen [] (openParen :: text) = some i ↔
      ∃ inner rest, text = inner ++ closeParen :: rest ∧ Piece true inner ∧
      i = inner.length + 1 := by
  have hopen : closingParen [] (openParen :: text) =
      (closeAt 1 (mark [] .outside text).1).map (· + 1) := by
    have hbehind := separates_openParen.mark_behind [] [] .outside text
    have hstep : Quoting.step [] text.head? openParen .outside =
        (false, .outside) := by
      simp [Quoting.step, openParen, quote]
    rw [List.nil_append] at hbehind
    rw [closingParen_eq, mark, hstep]
    simp only [hbehind]
    rw [closeAt, if_pos (by decide)]
    rfl
  rw [hopen]
  constructor
  · intro h
    obtain ⟨j, hj, rfl⟩ := Option.map_eq_some_iff.mp h
    obtain ⟨ms, ms', hmarks, hnested, rfl⟩ := closeAt_one_iff.mp hj
    obtain ⟨inner, rest, rfl, hinner, -⟩ :=
      separates_closeParen.exists_separated (Prod.ext hmarks rfl)
    have hlexed := lexed_of_mark hinner
    refine ⟨inner, rest, rfl, ⟨ms, hlexed, hnested⟩, ?_⟩
    rw [← hlexed.octets_eq, List.length_map]
  · rintro ⟨inner, rest, rfl, ⟨ms, hlexed, hnested⟩, rfl⟩
    rw [separates_closeParen.mark_lexed hlexed,
      closeAt_one_iff.mpr ⟨ms, _, rfl, hnested, rfl⟩,
      ← hlexed.octets_eq, List.length_map]
    rfl

/-- The text of a group can be cut at its commas. -/
theorem Piece.splitList {text : Bytes} (h : Piece true text) :
    Scan.splitList text = .error .emptyItem ∨ ∃ items,
    Scan.splitList text = .ok items := by
  obtain ⟨ms, hlexed, hnested⟩ := h
  obtain ⟨items, hitems⟩ := hnested.exists_pieces 0 []
  have hsplit : splitAtCommas text = (items, .balanced) := by
    rw [splitAtCommas_eq, marks, hlexed.mark_eq, hitems]
  by_cases hempty : [] ∈ items
  · exact Or.inl
      (splitList_eq_emptyItem.mpr ⟨items, hsplit, ⟨ms, hlexed⟩, hempty⟩)
  · exact Or.inr ⟨items, splitList_eq_ok.mpr ⟨hsplit, ⟨ms, hlexed⟩, hempty⟩⟩

/-- An operand field is split without fault just if its parentheses pair up. -/
theorem splitOperands_eq_iff {s : Statement} (hs : s.faults = [])
    {items : List Bytes} :
    s.splitOperands.faults = [] ∧ s.splitOperands.operands = items ↔
      splitAtCommas s.operand = (items, .balanced) := by
  unfold Statement.splitOperands
  cases splitAtCommas s.operand with
  | mk pieces balance => cases balance <;> simp [hs]

/-- **Lists, operand fields and groups are taken apart alike.**  A list is
accepted just if the same text is accepted as an operand field, every string in
it has an end, and no operand is empty; the items are the operands.  They are
pieces of text with commas between them, so each is the single item of itself.
A group ends where such a piece ends.  So the text of a group is a list unless
an item is empty. -/
theorem list_scanners :
    (∀ s : Statement, s.faults = [] → ∀ items, splitList s.operand = .ok items ↔
      (s.splitOperands.faults = [] ∧ s.splitOperands.operands = items) ∧
        Closed s.operand ∧ [] ∉ items) ∧
    (∀ text items, splitList text = .ok items ↔
      items ≠ [] ∧ Bytes.join [comma] items = text ∧
        ∀ item ∈ items, item ≠ [] ∧ Piece false item) ∧
    (∀ text items, splitList text = .ok items → ∀ item ∈ items,
      splitList item = .ok [item] ∧
      ∀ s : Statement,
      s.operand = item → s.splitOperands = { s with operands := [item] }) ∧
    (∀ text i, closingParen [] (openParen :: text) = some i ↔
      ∃ inner rest, text = inner ++ closeParen :: rest ∧ Piece true inner ∧
      i = inner.length + 1) ∧
    (∀ text, text.head? = some openParen →
      closingParen [] text = some (text.length - 1) →
      ∃ inner, text = openParen :: (inner ++ [closeParen]) ∧
        (splitList inner = .error .emptyItem ∨ ∃ items,
          splitList inner = .ok items)) ∧
    (∀ s : Statement, s.faults = [] → (splitList s.operand = .error .emptyItem ↔
      s.splitOperands.faults = [] ∧ Closed s.operand ∧
      [] ∈ s.splitOperands.operands)) := by
  refine ⟨fun s hs items => ?_, fun _ _ => splitList_eq_ok_iff,
    fun text items h item hitem => ?_,
    fun _ _ => closingParen_eq_some_iff, fun text hopen h => ?_, fun s hs => ?_⟩
  · rw [splitOperands_eq_iff hs, splitList_eq_ok]
  · obtain ⟨-, -, hitems⟩ := splitList_eq_ok_iff.mp h
    have hsingle : splitList item = .ok [item] :=
      splitList_eq_ok_iff.mpr ⟨by simp, rfl, by simpa using hitems item hitem⟩
    refine ⟨hsingle, fun s hs => ?_⟩
    rw [Statement.splitOperands, hs, (splitList_eq_ok.mp hsingle).1]
  · obtain ⟨rest, rfl⟩ := List.head?_eq_some_iff.mp hopen
    obtain ⟨inner, after, rfl, hinner, hlength⟩ := closingParen_eq_some_iff.mp h
    have hafter : after = [] := by
      rw [← List.length_eq_zero_iff]
      simp only [List.length_cons, List.length_append] at hlength
      omega
    subst hafter
    exact ⟨inner, rfl, hinner.splitList⟩
  · rw [splitList_eq_emptyItem]
    constructor
    · rintro ⟨items, hsplit, hclosed, hempty⟩
      obtain ⟨hfaults, rfl⟩ := (splitOperands_eq_iff hs).mpr hsplit
      exact ⟨hfaults, hclosed, hempty⟩
    · rintro ⟨hfaults, hclosed, hempty⟩
      exact ⟨_, (splitOperands_eq_iff hs).mp ⟨hfaults, rfl⟩, hclosed, hempty⟩

/-- Two items, with a group, a string and length attributes. -/
theorem list_scanners_attributes :
    splitList (bytes "A(L'X,'a)''b,'),L'Y") =
      .ok [bytes "A(L'X,'a)''b,')", bytes "L'Y"] ∧
    splitList (bytes "A(L'X,'a)''b,')") = .ok [bytes "A(L'X,'a)''b,')"] ∧
    Closed (bytes "A(L'X,'a)''b,'),L'Y") ∧
    ∃ items, splitList (bytes "L'X,'a)''b,'") = .ok items := by
  obtain ⟨hfields, -, hitems, -, hgroups, -⟩ := list_scanners
  have hlist : splitList (bytes "A(L'X,'a)''b,'),L'Y") =
      .ok [bytes "A(L'X,'a)''b,')", bytes "L'Y"] := by decide +kernel
  let s : Statement :=
    { line := 1, lines := [], position := ⟨1, 1, 0, 0, 0⟩
      operand := bytes "A(L'X,'a)''b,'),L'Y" }
  refine ⟨hlist, (hitems _ _ hlist _ List.mem_cons_self).1,
    ((hfields s rfl _).mp hlist).2.1, ?_⟩
  obtain ⟨inner, hinner, hcases⟩ :=
    hgroups (bytes "(L'X,'a)''b,')") (by decide) (by decide +kernel)
  obtain rfl : inner = bytes "L'X,'a)''b,'" :=
    ((List.append_left_inj [closeParen]).mp (List.cons.inj hinner).2).symm
  rcases hcases with hempty | hok
  · exact absurd hempty (by decide +kernel)
  · exact hok

end Scan

end System370
