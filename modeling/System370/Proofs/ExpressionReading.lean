import System370.Proofs.ExpressionScan
import System370.Proofs.SpelledNumbers

/-!
# Reading expressions

The reader takes a text apart into steps for a stack.  The steps of a derivation
are its terms and operators, with the operators behind their operands
(`Phrase.steps`).

* `Phrase.read_yield`: the reader gives the steps of a derivation if its terms
  are in range, and it has calls enough for that;
* `parse_yield`, `derives_parse`: so a text is read without a problem if and
  only if it has such a derivation.
-/

namespace System370

namespace Expression

/-! ### The steps of a derivation -/

namespace Leaf

/-- What stands between the apostrophes of a self-defining term as it is meant:
in a character term doubled apostrophes and ampersands stand for single ones. -/
def plain (kind : UInt8) (body : Bytes) : Bytes :=
  if upperAscii kind = octet 'C' then
    Bytes.undouble (octet '&') (Bytes.undouble quote body) else body

/-- Whether the number of a term is in range: at most 2^31 - 1 for a decimal
term.  A self-defining term has at least one octet, and at most four once zero
octets in front of them are dropped. -/
def Readable : Leaf → Prop
  | .decimal digits => Numeral.positional 10 (digits.map digitValue) ≤
    2 ^ 31 - 1
  | .selfDefining kind body =>
    ∃ octets, Numeral.termOctets (upperAscii kind) (plain kind body) =
      .ok octets ∧ octets ≠ [] ∧
      (octets.dropWhile (· = 0)).length ≤ 4
  | _ => True

/-- The step that a term is. -/
def step : Leaf → Step
  | .decimal digits =>
    .number (Int64.ofNat (Numeral.positional 10 (digits.map digitValue)))
  | .selfDefining kind body =>
    .number (Int64.ofNat (Numeral.spelled (upperAscii kind) (plain kind body)))
  | .lengthOf _ name => .lengthOf (name.map upperAscii)
  | .lengthHere _ => .placeLength
  | .here => .place
  | .symbol name => .symbol (name.map upperAscii)

end Leaf

namespace Phrase

/-- The steps of a derivation. -/
def steps : {c : Category} → Phrase c → List Step
  | _, .sum first rest => first.steps ++ rest.steps
  | _, .sumEnd => []
  | _, .plus next rest => next.steps ++ ([.add] ++ rest.steps)
  | _, .minus next rest => next.steps ++ ([.subtract] ++ rest.steps)
  | _, .product first rest => first.steps ++ rest.steps
  | _, .productEnd => []
  | _, .times next rest => next.steps ++ ([.multiply] ++ rest.steps)
  | _, .divided next rest => next.steps ++ ([.divide] ++ rest.steps)
  | _, .positive of => of.steps
  | _, .negative of => of.steps ++ [.negate]
  | _, .bare term => term.steps
  | _, .group inner => inner.steps
  | _, .leaf l _ => [l.step]

/-- Whether all terms of a derivation have a property. -/
def Leaves (P : Leaf → Prop) : {c : Category} → Phrase c → Prop
  | _, .sum first rest => first.Leaves P ∧ rest.Leaves P
  | _, .sumEnd => True
  | _, .plus next rest => next.Leaves P ∧ rest.Leaves P
  | _, .minus next rest => next.Leaves P ∧ rest.Leaves P
  | _, .product first rest => first.Leaves P ∧ rest.Leaves P
  | _, .productEnd => True
  | _, .times next rest => next.Leaves P ∧ rest.Leaves P
  | _, .divided next rest => next.Leaves P ∧ rest.Leaves P
  | _, .positive of => of.Leaves P
  | _, .negative of => of.Leaves P
  | _, .bare term => term.Leaves P
  | _, .group inner => inner.Leaves P
  | _, .leaf l _ => P l

end Phrase

/-! ### Reading terms -/

namespace Parsed

/-- One part behind another that is read. -/
theorem ok_andThen {steps steps' : List Step} {rest rest' : Bytes}
    {next : Bytes → Parsed} (h : next rest = ok steps' rest') :
    (ok steps rest).andThen next = ok (steps ++ steps') rest' := by
  simp [andThen, ok, h]

theorem ok_push (steps : List Step) (rest : Bytes) (step : Step) :
    (ok steps rest).push step = ok (steps ++ [step]) rest := rfl

end Parsed

/-- The number of a term is what its octets spell. -/
theorem term_eq_ok {kind : UInt8} {body : Bytes} {n : Int64} :
    Numeral.term (upperAscii kind) (Leaf.plain kind body) = .ok n ↔
      (Leaf.selfDefining kind body).Readable ∧
      (Leaf.selfDefining kind body).step = .number n := by
  rw [Numeral.term_eq_ok]
  constructor
  · rintro ⟨octets, hoctets, hne, hle, rfl⟩
    exact ⟨⟨octets, hoctets, hne,
      hle⟩, by rw [Leaf.step, Numeral.get_termOctets hoctets]⟩
  · rintro ⟨⟨octets, hoctets, hne, hle⟩, hstep⟩
    refine ⟨octets, hoctets, hne, hle, ?_⟩
    rw [Numeral.get_termOctets hoctets]
    exact (Step.number.inj hstep).symm

/-- A number in decimal digits is read up to what follows it. -/
theorem parseDecimal_text {digits rest : Bytes}
    (hl : (Leaf.decimal digits).WellFormed) (hrest : Category.term.Follows rest)
    (hreadable : (Leaf.decimal digits).Readable) :
    parseDecimal (digits ++ rest) = .ok [(Leaf.decimal digits).step] rest := by
  obtain ⟨hne, hdigits⟩ := hl
  obtain ⟨htake, hdrop⟩ := span_append hdigits fun d hd => (hrest.ends d hd).2.1
  obtain ⟨hvalue, hle⟩ :=
    (Numeral.integer_digits_le hne hdigits _).mpr ⟨hreadable, rfl⟩
  rw [parseDecimal, htake, hdrop]
  simp only [hvalue, if_pos hle]
  rfl

/-- Where a string without apostrophes ends. -/
theorem idxOf?_quote {body : Bytes} (h : quote ∉ body) (rest : Bytes) :
    (body ++ quote :: rest).idxOf? quote = some body.length := by
  refine List.idxOf?_eq_some_iff.mpr ⟨by simp, by simp, fun j hj heq => h ?_⟩
  rw [List.getElem_append_left hj] at heq
  exact heq ▸ List.getElem_mem hj

/-- A self-defining term is read up to its closing quote. -/
theorem parseTerm_text {kind : UInt8}
    {body rest : Bytes} (hl : (Leaf.selfDefining kind body).WellFormed)
    (hrest : Category.term.Follows rest)
    (hreadable : (Leaf.selfDefining kind body).Readable) :
    parseTerm (upperAscii kind) (body ++ quote :: rest) =
      .ok [(Leaf.selfDefining kind body).step] rest := by
  have hends : (if upperAscii kind = octet 'C' then
      Scan.closingQuote (body ++ quote :: rest)
      else (body ++ quote :: rest).idxOf? quote) = some body.length := by
    rcases hl with ⟨hkind, hbody⟩ | ⟨hkind, hbody⟩
    · have hother : upperAscii kind ≠ octet 'C' := by
        rcases hkind with hkind | hkind <;> rw [hkind] <;> decide
      rw [if_neg hother]
      exact idxOf?_quote hbody rest
    · rw [if_pos hkind]
      exact closingQuote_append hbody fun d hd => (hrest.ends d hd).2.2
  have hterm := term_eq_ok.mpr ⟨hreadable, rfl⟩
  unfold Leaf.plain at hterm
  unfold parseTerm
  have hbehind : (body ++ quote :: rest).drop (body.length + 1) = rest :=
    List.drop_length_add_append 1
  simp only [hends, List.take_left, hterm, hbehind]
  rfl

/-- A symbol is read up to what cannot belong to it. -/
theorem splitSymbol_text {name rest : Bytes} (hname : IsName name)
    (hrest : Category.term.Follows rest) :
    splitSymbol (name ++ rest) = (name.map upperAscii, rest) := by
  obtain ⟨c, more, rfl, hc, hmore⟩ := hname
  have hchars : ∀ d ∈ c :: more, isSymbolChar d = true :=
    List.forall_mem_cons.mpr ⟨isSymbolChar_of_start hc, hmore⟩
  obtain ⟨htake, hdrop⟩ := span_append hchars fun d hd => (hrest.ends d hd).1
  rw [splitSymbol, htake, hdrop]

/-- A length attribute is read as one. -/
theorem parseNamed_length {letter next : UInt8}
    (hletter : upperAscii letter = octet 'L')
    (hnext : isSymbolStart next = true ∨ next = octet '*') (rest : Bytes) :
    parseNamed letter (quote :: next :: rest) =
      parseLengthAttribute (next :: rest) := by
  have happart : Apart [] := nofun
  have hattribute := attributeQuote_letter hletter happart hnext
  have hkind :
      ¬ (upperAscii letter = octet 'X' ∨ upperAscii letter = octet 'B' ∨
      upperAscii letter = octet 'C') := by
    rw [hletter]
    decide
  unfold parseNamed
  rw [if_neg fun h => hkind h.2]
  exact if_pos ⟨rfl, hattribute⟩

/-- A self-defining term is read as one. -/
theorem parseNamed_term {kind : UInt8}
    (h : upperAscii kind = octet 'X' ∨ upperAscii kind = octet 'B' ∨
    upperAscii kind = octet 'C') (rest : Bytes) :
    parseNamed kind (quote :: rest) = parseTerm (upperAscii kind) rest :=
  if_pos ⟨rfl, h⟩

/-- **A term is read as the step that it is.** -/
theorem parseFactor_text {l : Leaf} (hl : l.WellFormed) (hreadable : l.Readable)
    {rest : Bytes} (hrest : Category.term.Follows rest)
    (fuel : Nat) (whole : Bytes) :
    parseFactor (fuel + 1) whole (l.text ++ rest) = .ok [l.step] rest := by
  have hstarted : ∀ {c : UInt8} {more : Bytes}, isSymbolStart c = true →
      parseFactor (fuel + 1) whole (c :: more) = parseNamed c more := by
    intro c more hc
    rw [parseFactor, if_neg (ne_of_start hc (by decide)),
      if_neg (ne_of_start hc (by decide)),
      if_neg (ne_of_start hc (by decide)), if_neg (ne_of_start hc (by decide)),
      if_neg (ne_of_start hc (by decide)),
      if_neg (by simp [not_digit_of_start hc]), if_pos hc]
  cases l with
  | decimal digits =>
      have hread := parseDecimal_text hl hrest hreadable
      obtain ⟨hne, hdigits⟩ := hl
      cases digits with
      | nil => exact absurd rfl hne
      | cons c more =>
          have hc := hdigits c List.mem_cons_self
          rw [Leaf.text, ← hread, List.cons_append, parseFactor,
            if_neg (ne_of_digit hc (by decide)),
            if_neg (ne_of_digit hc (by decide)),
            if_neg (ne_of_digit hc (by decide)),
            if_neg (ne_of_digit hc (by decide)),
            if_neg (ne_of_digit hc (by decide)), if_pos hc]
  | selfDefining kind body =>
      have hkind := kind_of_wellFormed hl
      have htext : (Leaf.selfDefining kind body).text ++ rest =
          kind :: quote :: (body ++ quote :: rest) := by simp [Leaf.text]
      rw [htext, hstarted (start_of_kind hkind), parseNamed_term hkind,
        parseTerm_text hl hrest hreadable]
  | lengthOf letter name =>
      obtain ⟨hletter, hname⟩ := hl
      have hsplit := splitSymbol_text hname hrest
      obtain ⟨c, more, rfl, hc, -⟩ := hname
      have hstar : c ≠ octet '*' := ne_of_start hc (by decide)
      rw [Leaf.text, List.cons_append, List.cons_append, List.cons_append,
        hstarted (start_of_length hletter),
        parseNamed_length hletter (Or.inl hc), parseLengthAttribute,
        if_neg (by simpa using hstar), ← List.cons_append, hsplit]
      rfl
  | lengthHere letter =>
      have hletter : upperAscii letter = octet 'L' := hl
      have htext : (Leaf.lengthHere letter).text ++ rest =
          letter :: quote :: octet '*' :: rest := rfl
      rw [htext, hstarted (start_of_length hletter),
        parseNamed_length hletter (Or.inr rfl)]
      rfl
  | here => rfl
  | symbol name =>
      have hsplit := splitSymbol_text hl hrest
      obtain ⟨c, more, rfl, hc, hmore⟩ := hl
      have hnext := head_ne_quote hmore hrest
      rw [Leaf.text, List.cons_append, hstarted hc, parseNamed,
        if_neg fun h => hnext h.1,
        if_neg fun h => hnext h.1, ← List.cons_append, hsplit]
      rfl

/-! ### Reading derivations -/

/-- The part of the reader that reads the phrases of a category. -/
def Category.reader : Category → Nat → Bytes → Bytes → Parsed
  | .sum => parseSum
  | .sumTail => parseSumRest
  | .product => parseProduct
  | .productTail => parseProductRest
  | .factor => parseFactor
  | .term => parseFactor

/-- How many calls it takes besides four for every octet. -/
def Category.calls : Category → Nat
  | .sum => 2
  | .product => 1
  | _ => 0

/-- What follows a sum or a product ends it. -/
theorem parseSumRest_of_follows {rest : Bytes}
    (h : Category.sumTail.Follows rest) (fuel : Nat) (whole : Bytes) :
    parseSumRest fuel whole rest = .ok [] rest := by
  cases fuel with
  | zero => rfl
  | succ fuel =>
      cases rest with
      | nil => rfl
      | cons d more =>
          have hplus : d ≠ octet '+' :=
            fun hd => Phrase.not_follows_sumTail (Or.inl hd) more h
          have hminus : d ≠ octet '-' :=
            fun hd => Phrase.not_follows_sumTail (Or.inr hd) more h
          rw [parseSumRest, if_neg hplus, if_neg hminus]

/-- A product ends at what may follow it. -/
theorem parseProductRest_of_follows {rest : Bytes}
    (h : Category.productTail.Follows rest) (fuel : Nat) (whole : Bytes) :
    parseProductRest fuel whole rest = .ok [] rest := by
  cases fuel with
  | zero => rfl
  | succ fuel =>
      cases rest with
      | nil => rfl
      | cons d more =>
          have htimes : d ≠ octet '*' :=
            fun hd => Phrase.not_follows_productTail (Or.inl hd) more h
          have hover : d ≠ octet '/' :=
            fun hd => Phrase.not_follows_productTail (Or.inr hd) more h
          rw [parseProductRest, if_neg htimes, if_neg hover]

namespace Phrase

/-- Whether a phrase is read as its steps, wherever something stands behind it
that does not go on with it. -/
def IsRead {c : Category} (p : Phrase c) : Prop :=
  ∀ (fuel : Nat) (whole : Bytes) {rest : Bytes}, c.Follows rest →
    4 * p.yield.length + c.calls ≤ fuel →
      c.reader fuel whole (p.yield ++ rest) = .ok p.steps rest

section Reading

variable {c c' : Category} {first : Phrase c} {tail : Phrase c'} {fuel : Nat}
  {rest : Bytes}

/-- A phrase and its tail. -/
theorem IsRead.andThen (hfirst : first.IsRead) (htail : tail.IsRead)
    (hfollows : ∀ (t : Phrase c') {rest}, c'.Follows rest →
      c.Follows (t.yield ++ rest))
    (hfuel : 4 * first.yield.length + c.calls ≤ fuel ∧
      4 * tail.yield.length + c'.calls ≤ fuel) (whole : Bytes)
    (hrest : c'.Follows rest) :
    (c.reader fuel whole (first.yield ++ tail.yield ++ rest)).andThen
      (c'.reader fuel whole) =
      .ok (first.steps ++ tail.steps) rest := by
  rw [List.append_assoc, hfirst fuel whole (hfollows tail hrest) hfuel.1]
  exact Parsed.ok_andThen (htail fuel whole hrest hfuel.2)

/-- A phrase behind an operator, and its tail. -/
theorem IsRead.push (hfirst : first.IsRead) (htail : tail.IsRead)
    (hfollows : ∀ (t : Phrase c') {rest}, c'.Follows rest →
      c.Follows (t.yield ++ rest))
    (hfuel : 4 * first.yield.length + c.calls ≤ fuel ∧
      4 * tail.yield.length + c'.calls ≤ fuel) (whole : Bytes)
    (hrest : c'.Follows rest) (step : Step) :
    ((c.reader fuel whole (first.yield ++ tail.yield ++ rest)).push
      step).andThen
      (c'.reader fuel whole) =
        .ok (first.steps ++ ([step] ++ tail.steps)) rest := by
  rw [List.append_assoc, hfirst fuel whole (hfollows tail hrest) hfuel.1,
    Parsed.ok_push, ← List.append_assoc first.steps]
  exact Parsed.ok_andThen (htail fuel whole hrest hfuel.2)

end Reading

/-! One lemma for each rule of the grammar.  Reading a phrase takes one call, or
two for a group, and leaves enough of them for its parts. -/

/-- A sum is its first product and the summands behind it. -/
theorem isRead_sum {first : Phrase .product} {tail : Phrase .sumTail}
    (hfirst : first.IsRead) (htail : tail.IsRead) :
    (Phrase.sum first tail).IsRead := by
  intro fuel whole rest hrest hfuel
  simp only [yield, List.length_append, Category.calls] at hfuel
  obtain ⟨fuel, rfl⟩ : ∃ n, fuel = n + 1 := ⟨fuel - 1, by omega⟩
  exact hfirst.andThen htail follows_sumTail
    (by simp only [Category.calls]; omega) whole
    (hrest.mono (by simp) (by simp))

/-- A sum ends where nothing goes on with it. -/
theorem isRead_sumEnd : Phrase.sumEnd.IsRead :=
  fun fuel whole _ hrest _ => parseSumRest_of_follows hrest fuel whole

/-- A summand is added. -/
theorem isRead_plus {next : Phrase .product} {tail : Phrase .sumTail}
    (hnext : next.IsRead) (htail : tail.IsRead) :
    (Phrase.plus next tail).IsRead := by
  intro fuel whole rest hrest hfuel
  simp only [yield, List.length_append, List.length_cons,
    Category.calls] at hfuel
  obtain ⟨fuel, rfl⟩ : ∃ n, fuel = n + 1 := ⟨fuel - 1, by omega⟩
  rw [yield, List.cons_append, Category.reader, parseSumRest, if_pos rfl]
  exact hnext.push htail follows_sumTail
    (by simp only [Category.calls]; omega) whole hrest .add

/-- A summand is subtracted. -/
theorem isRead_minus {next : Phrase .product} {tail : Phrase .sumTail}
    (hnext : next.IsRead) (htail : tail.IsRead) :
    (Phrase.minus next tail).IsRead := by
  intro fuel whole rest hrest hfuel
  simp only [yield, List.length_append, List.length_cons,
    Category.calls] at hfuel
  obtain ⟨fuel, rfl⟩ : ∃ n, fuel = n + 1 := ⟨fuel - 1, by omega⟩
  rw [yield, List.cons_append, Category.reader, parseSumRest,
    if_neg (by decide), if_pos rfl]
  exact hnext.push htail follows_sumTail
    (by simp only [Category.calls]; omega) whole hrest .subtract

/-- A product is its first factor and the factors behind it. -/
theorem isRead_product {first : Phrase .factor} {tail : Phrase .productTail}
    (hfirst : first.IsRead) (htail : tail.IsRead) :
    (Phrase.product first tail).IsRead := by
  intro fuel whole rest hrest hfuel
  simp only [yield, List.length_append, Category.calls] at hfuel
  obtain ⟨fuel, rfl⟩ : ∃ n, fuel = n + 1 := ⟨fuel - 1, by omega⟩
  exact hfirst.andThen htail follows_productTail
    (by simp only [Category.calls]; omega) whole
    (hrest.mono (by simp) (by simp))

/-- A product ends where nothing goes on with it. -/
theorem isRead_productEnd : Phrase.productEnd.IsRead :=
  fun fuel whole _ hrest _ => parseProductRest_of_follows hrest fuel whole

/-- A factor is multiplied. -/
theorem isRead_times {next : Phrase .factor} {tail : Phrase .productTail}
    (hnext : next.IsRead) (htail : tail.IsRead) :
    (Phrase.times next tail).IsRead := by
  intro fuel whole rest hrest hfuel
  simp only [yield, List.length_append, List.length_cons,
    Category.calls] at hfuel
  obtain ⟨fuel, rfl⟩ : ∃ n, fuel = n + 1 := ⟨fuel - 1, by omega⟩
  rw [yield, List.cons_append, Category.reader, parseProductRest, if_pos rfl]
  exact hnext.push htail follows_productTail
    (by simp only [Category.calls]; omega) whole hrest .multiply

/-- A factor is divided by. -/
theorem isRead_divided {next : Phrase .factor} {tail : Phrase .productTail}
    (hnext : next.IsRead) (htail : tail.IsRead) :
    (Phrase.divided next tail).IsRead := by
  intro fuel whole rest hrest hfuel
  simp only [yield, List.length_append, List.length_cons,
    Category.calls] at hfuel
  obtain ⟨fuel, rfl⟩ : ∃ n, fuel = n + 1 := ⟨fuel - 1, by omega⟩
  rw [yield, List.cons_append, Category.reader, parseProductRest,
    if_neg (by decide), if_pos rfl]
  exact hnext.push htail follows_productTail
    (by simp only [Category.calls]; omega) whole hrest .divide

/-- A plus sign does nothing. -/
theorem isRead_positive {of : Phrase .factor} (hof : of.IsRead) :
    (Phrase.positive of).IsRead := by
  intro fuel whole rest hrest hfuel
  simp only [yield, List.length_cons, Category.calls] at hfuel
  obtain ⟨fuel, rfl⟩ : ∃ n, fuel = n + 1 := ⟨fuel - 1, by omega⟩
  have hread := hof fuel whole hrest (by simp only [Category.calls]; omega)
  rw [yield, List.cons_append, Category.reader, parseFactor, if_pos rfl]
  exact hread

/-- A minus sign negates what is behind it. -/
theorem isRead_negative {of : Phrase .factor} (hof : of.IsRead) :
    (Phrase.negative of).IsRead := by
  intro fuel whole rest hrest hfuel
  simp only [yield, List.length_cons, Category.calls] at hfuel
  obtain ⟨fuel, rfl⟩ : ∃ n, fuel = n + 1 := ⟨fuel - 1, by omega⟩
  have hread : parseFactor fuel whole _ = _ :=
    hof fuel whole hrest (by simp only [Category.calls]; omega)
  rw [yield, List.cons_append, Category.reader, parseFactor, if_neg (by decide),
    if_pos rfl, hread]
  rfl

/-- A term is a factor. -/
theorem isRead_bare {term : Phrase .term} (hterm : term.IsRead) :
    (Phrase.bare term).IsRead := by
  intro fuel whole rest hrest hfuel
  exact hterm fuel whole (hrest.mono (by simp) (by simp)) hfuel

/-- A group is cut out and read on its own. -/
theorem isRead_group {inner : Phrase .sum} (hinner : inner.IsRead) :
    (Phrase.group inner).IsRead := by
  intro fuel whole rest hrest hfuel
  simp only [yield, List.length_cons, List.length_append, List.length_nil,
    Category.calls] at hfuel
  obtain ⟨fuel, rfl⟩ : ∃ n, fuel = n + 2 := ⟨fuel - 2, by omega⟩
  have hread : parseSum fuel inner.yield _ = _ :=
    hinner fuel inner.yield (follows_nil _)
      (by simp only [Category.calls]; omega)
  rw [List.append_nil] at hread
  have hgroup := parenthesized?_group inner rest
  rw [yield, List.cons_append, List.append_assoc, List.singleton_append,
    Category.reader,
    parseFactor, if_neg (by decide), if_neg (by decide), if_neg (by decide),
    if_pos (show octet '(' = Scan.openParen from rfl), parseGroup, hgroup]
  simp [hread, Parsed.andThen, Parsed.ok, steps]

/-- A term is read off the text. -/
theorem isRead_leaf {l : Leaf} (hl : l.WellFormed) (hreadable : l.Readable) :
    (Phrase.leaf l hl).IsRead := by
  intro fuel whole rest hrest hfuel
  obtain ⟨c, more, htext, -⟩ := head_text hl
  simp only [yield, htext, List.length_cons, Category.calls] at hfuel
  obtain ⟨fuel, rfl⟩ : ∃ n, fuel = n + 1 := ⟨fuel - 1, by omega⟩
  exact parseFactor_text hl hreadable hrest fuel whole

/-- **A derivation whose terms are in range is read as its steps.**  By
induction on the derivation: what stands behind a part of a phrase follows a
phrase of its category. -/
theorem read_yield {c : Category} (p : Phrase c) (hp : p.Leaves Leaf.Readable) :
    p.IsRead := by
  induction p with
  | sum first tail ihFirst ihTail =>
      exact isRead_sum (ihFirst hp.1) (ihTail hp.2)
  | sumEnd => exact isRead_sumEnd
  | plus next tail ihNext ihTail =>
      exact isRead_plus (ihNext hp.1) (ihTail hp.2)
  | minus next tail ihNext ihTail =>
      exact isRead_minus (ihNext hp.1) (ihTail hp.2)
  | product first tail ihFirst ihTail =>
      exact isRead_product (ihFirst hp.1) (ihTail hp.2)
  | productEnd => exact isRead_productEnd
  | times next tail ihNext ihTail =>
      exact isRead_times (ihNext hp.1) (ihTail hp.2)
  | divided next tail ihNext ihTail =>
      exact isRead_divided (ihNext hp.1) (ihTail hp.2)
  | positive of ih => exact isRead_positive (ih hp)
  | negative of ih => exact isRead_negative (ih hp)
  | bare term ih => exact isRead_bare (ih hp)
  | group inner ih => exact isRead_group (ih hp)
  | leaf l hl => exact isRead_leaf hl hp

end Phrase

/-! ### What is read is a derivation -/

/-- Whether steps that were read without a problem are those of a phrase at the
beginning of a text, with `behind` behind them. -/
def Parsed.Derives (p : Parsed) (c : Category) (text : Bytes)
    (behind : List Step) : Prop :=
  p.problem = none → ∃ phrase : Phrase c, phrase.Leaves Leaf.Readable ∧
    phrase.yield ++ p.rest = text ∧ p.steps = phrase.steps ++ behind

section Derives

variable {c c' c'' : Category} {text : Bytes} {behind : List Step} {p : Parsed}
  {next : Bytes → Parsed}

/-- A failure derives nothing. -/
theorem derives_fail (rest : Bytes) (problem : Problem) :
    (Parsed.fail rest problem).Derives c text behind := nofun

/-- A leaf that is read is a phrase. -/
theorem derives_leaf {l : Leaf} (hl : l.WellFormed) (hreadable : l.Readable)
    {rest : Bytes} (htext : l.text ++ rest = text) :
    (Parsed.ok [l.step] rest).Derives .factor text [] :=
  fun _ => ⟨.bare (.leaf l hl), hreadable, htext, rfl⟩

/-- What two readings without a problem give together. -/
theorem andThen_problem_none (h : (p.andThen next).problem = none) :
    p.problem = none ∧ (next p.rest).problem = none ∧
      (p.andThen next).rest = (next p.rest).rest ∧
      (p.andThen next).steps = p.steps ++ (next p.rest).steps := by
  unfold Parsed.andThen at h ⊢
  split at h
  · rename_i problem hproblem
    simp [hproblem] at h
  · rename_i hnone
    exact ⟨hnone, h, rfl, rfl⟩

/-- An operator behind what was read. -/
theorem Parsed.Derives.push (hp : p.Derives c text []) (step : Step) :
    (p.push step).Derives c text [step] := by
  intro hnone
  obtain ⟨hproblem, -, hrest, hpush⟩ := andThen_problem_none hnone
  obtain ⟨phrase, hleaves, htext, hsteps⟩ := hp hproblem
  refine ⟨phrase, hleaves, ?_, ?_⟩
  · rw [Parsed.push, hrest]
    exact htext
  · rw [Parsed.push, hpush, hsteps, List.append_nil]
    rfl

/-- A phrase and its tail make a phrase together. -/
theorem Parsed.Derives.andThen (hp : p.Derives c text behind)
    (hnext : ∀ rest, (next rest).Derives c' rest [])
    (make : Phrase c → Phrase c' → Phrase c'') (front : Bytes)
    (hmake : ∀ first tail,
      (make first tail).yield = front ++ (first.yield ++ tail.yield) ∧
      (make first tail).steps = first.steps ++ (behind ++ tail.steps) ∧
      (first.Leaves Leaf.Readable → tail.Leaves Leaf.Readable →
        (make first tail).Leaves Leaf.Readable)) :
    (p.andThen next).Derives c'' (front ++ text) [] := by
  intro hnone
  obtain ⟨hproblem, hproblem', hrest, hboth⟩ := andThen_problem_none hnone
  obtain ⟨first, hleaves, htext, hsteps⟩ := hp hproblem
  obtain ⟨tail, hleaves', htext', hsteps'⟩ := hnext p.rest hproblem'
  obtain ⟨hyield, hall, hreadable⟩ := hmake first tail
  refine ⟨make first tail, hreadable hleaves hleaves', ?_, ?_⟩
  · rw [hrest, hyield, List.append_assoc, List.append_assoc, htext', htext]
  · rw [hboth, hall, hsteps, hsteps']
    simp

end Derives

/-- What stands in front of the apostrophe that ends a string. -/
theorem closingQuote_eq_some {text : Bytes} {n : Nat}
    (h : Scan.closingQuote text = some n) :
    ∃ body rest, text = body ++ quote :: rest ∧ body.length = n ∧
      Doubled body := by
  fun_induction Scan.closingQuote text generalizing n with
  | case1 => simp at h
  | case2 => exact ⟨[], [], rfl, Option.some.inj h, .nil⟩
  | case3 => simp at h
  | case4 more ih =>
      obtain ⟨m, hm, rfl⟩ := Option.map_eq_some_iff.mp h
      obtain ⟨body, rest, rfl, rfl, hbody⟩ := ih hm
      exact ⟨quote :: quote :: body, rest, rfl, rfl, .pair hbody⟩
  | case5 d more => exact ⟨[], d :: more, rfl, Option.some.inj h, .nil⟩
  | case6 c d more hc ih =>
      obtain ⟨m, hm, rfl⟩ := Option.map_eq_some_iff.mp h
      obtain ⟨body, rest, htext, rfl, hbody⟩ := ih hm
      exact ⟨c :: body, rest, by rw [htext]; rfl, rfl, .octet hc hbody⟩

/-- The first quote of a text. -/
theorem idxOf?_eq_some {text : Bytes} {n : Nat}
    (h : text.idxOf? quote = some n) :
    ∃ body rest, text = body ++ quote :: rest ∧ body.length = n ∧
      quote ∉ body := by
  obtain ⟨hlt, hget, hbefore⟩ := List.idxOf?_eq_some_iff.mp h
  refine ⟨text.take n, text.drop (n + 1), ?_,
    List.length_take_of_le (Nat.le_of_lt hlt), fun hmem => ?_⟩
  · rw [← hget, List.getElem_cons_drop, List.take_append_drop]
  · obtain ⟨j, hj, hjget⟩ := List.mem_iff_getElem.mp hmem
    rw [List.length_take] at hj
    exact hbefore j (by omega) (by rw [← hjget, List.getElem_take])

/-- What is read of digits is a number. -/
theorem derives_parseDecimal {d : UInt8} (hd : isDigit d = true)
    (rest : Bytes) :
    (parseDecimal (d :: rest)).Derives .factor (d :: rest) [] := by
  have hl : (Leaf.decimal ((d :: rest).takeWhile isDigit)).WellFormed :=
    ⟨by simp [hd], fun c hc => List.mem_takeWhile_imp hc⟩
  unfold parseDecimal
  simp only
  split
  · rename_i n hn
    split
    · rename_i hle
      obtain ⟨hreadable, rfl⟩ :=
        (Numeral.integer_digits_le hl.1 hl.2 n).mp ⟨hn, hle⟩
      exact derives_leaf hl hreadable (List.takeWhile_append_dropWhile)
    · exact derives_fail _ _
  · exact derives_fail _ _

/-- What is read of a self-defining term is one. -/
theorem derives_parseTerm {kind : UInt8}
    (hkind : upperAscii kind = octet 'X' ∨
    upperAscii kind = octet 'B' ∨ upperAscii kind = octet 'C') (text : Bytes) :
    (parseTerm (upperAscii kind) text).Derives .factor
      (kind :: quote :: text) [] := by
  have hends : ∀ {n},
      (if upperAscii kind = octet 'C' then Scan.closingQuote text
      else text.idxOf? quote) = some n → ∃ body rest,
      text = body ++ quote :: rest ∧
        body.length = n ∧ (Leaf.selfDefining kind body).WellFormed := by
    intro n hn
    split at hn
    · rename_i hcharacter
      obtain ⟨body, rest, htext, hlength, hbody⟩ := closingQuote_eq_some hn
      exact ⟨body, rest, htext, hlength, Or.inr ⟨hcharacter, hbody⟩⟩
    · rename_i hcharacter
      obtain ⟨body, rest, htext, hlength, hbody⟩ := idxOf?_eq_some hn
      exact ⟨body, rest, htext, hlength,
        Or.inl ⟨by simpa [hcharacter] using hkind, hbody⟩⟩
  unfold parseTerm
  simp only
  split
  · exact derives_fail _ _
  · rename_i n hn
    obtain ⟨body, rest, rfl, rfl, hl⟩ := hends hn
    rw [List.take_left, List.drop_length_add_append]
    split
    · rename_i value hvalue
      obtain ⟨hreadable, hstep⟩ := term_eq_ok.mp hvalue
      rw [← hstep]
      exact derives_leaf hl hreadable (by simp [Leaf.text])
    · exact derives_fail _ _

/-- A symbol stands where a letter does. -/
theorem isName_takeWhile {d : UInt8} (hd : isSymbolStart d = true)
    (rest : Bytes) :
    IsName ((d :: rest).takeWhile isSymbolChar) := by
  rw [List.takeWhile_cons_of_pos (isSymbolChar_of_start hd)]
  exact ⟨d, _, rfl, hd, fun c hc => List.mem_takeWhile_imp hc⟩

/-- What stands around the apostrophe of a length attribute. -/
theorem attributeQuote_eq_true {letter : UInt8}
    {text : Bytes} (h : Scan.attributeQuote [letter] text.head? = true) :
    upperAscii letter = octet 'L' ∧
      ∃ d more, text = d :: more ∧
      (isSymbolStart d = true ∨ d = octet '*') := by
  obtain ⟨hletter, hnext⟩ := Bool.and_eq_true_iff.mp h
  cases text with
  | nil => simp at hnext
  | cons d more =>
      refine ⟨?_, d, more, rfl, ?_⟩
      · simp only [Bool.or_eq_true, decide_eq_true_eq] at hletter
        rcases hletter with rfl | rfl <;> decide
      · exact (Bool.or_eq_true_iff.mp hnext).imp_right of_decide_eq_true

/-- What begins with a letter is a term, a length or a symbol. -/
theorem derives_parseNamed {d : UInt8} (hd : isSymbolStart d = true)
    (rest : Bytes) :
    (parseNamed d rest).Derives .factor (d :: rest) [] := by
  have hquoted : ∀ {rest : Bytes}, rest.head? = some quote → ∃ more,
      rest = quote :: more := by
    intro rest hhead
    cases rest with
    | nil => simp at hhead
    | cons c more => exact ⟨more, by rw [Option.some.inj hhead]⟩
  unfold parseNamed
  simp only
  split
  · rename_i hterm
    obtain ⟨more, rfl⟩ := hquoted hterm.1
    exact derives_parseTerm hterm.2 more
  split
  · rename_i hlength
    obtain ⟨more, rfl⟩ := hquoted hlength.1
    obtain ⟨hletter, c, more, rfl, hc⟩ := attributeQuote_eq_true hlength.2
    unfold parseLengthAttribute
    split
    · rename_i hstar
      obtain rfl := Option.some.inj hstar
      exact derives_leaf (l := .lengthHere d) hletter trivial rfl
    · rename_i hstar
      have hstart : isSymbolStart c = true :=
        hc.resolve_right fun h => hstar (by simp [h])
      refine derives_leaf
        (l := .lengthOf d ((c :: more).takeWhile isSymbolChar))
        ⟨hletter, isName_takeWhile hstart more⟩ trivial ?_
      simp [Leaf.text, splitSymbol]
  · exact derives_leaf (l :=
      .symbol ((d :: rest).takeWhile isSymbolChar)) (isName_takeWhile hd rest)
      trivial List.takeWhile_append_dropWhile

/-- A sum that is all of a text. -/
theorem Parsed.Derives.whole {p : Parsed} {text rest : Bytes}
    {next : Bytes → Parsed} (hp : p.Derives .sum text [])
    (h : (p.andThen next).problem = none) (hnil : next [] = .ok [] rest)
    (hcons : ∀ d more, (next (d :: more)).problem ≠ none) :
    ∃ phrase : Phrase .sum, phrase.Leaves Leaf.Readable ∧ phrase.yield = text ∧
      (p.andThen next).steps = phrase.steps ∧ (p.andThen next).rest = rest := by
  obtain ⟨hproblem, hproblem', hrest, hsteps⟩ := andThen_problem_none h
  obtain ⟨phrase, hleaves, htext, hown⟩ := hp hproblem
  cases hend : p.rest with
  | nil =>
      rw [hend, hnil] at hrest hsteps
      rw [hend, List.append_nil] at htext
      refine ⟨phrase, hleaves, htext, ?_, hrest⟩
      rw [hsteps, hown]
      simp [Parsed.ok]
  | cons d more =>
      rw [hend] at hproblem'
      exact absurd hproblem' (hcons d more)

/-- Whether every part of the reader reads phrases of its category if it has
some number of calls. -/
structure ReadsPhrases (fuel : Nat) : Prop where
  sum : ∀ whole text, (parseSum fuel whole text).Derives .sum text []
  sumTail : ∀ whole text,
    (parseSumRest fuel whole text).Derives .sumTail text []
  product : ∀ whole text,
    (parseProduct fuel whole text).Derives .product text []
  productTail : ∀ whole text,
    (parseProductRest fuel whole text).Derives .productTail text []
  factor : ∀ whole text, (parseFactor fuel whole text).Derives .factor text []
  group : ∀ text, (parseGroup fuel (Scan.openParen :: text)).Derives .factor
    (Scan.openParen :: text) []

namespace ReadsPhrases

variable {fuel : Nat} (h : ReadsPhrases fuel) (whole text : Bytes)

include h

/-! One call more. -/

/-- A sum, if its parts are. -/
theorem succ_sum : (parseSum (fuel + 1) whole text).Derives .sum text [] :=
  (h.product whole text).andThen (h.sumTail whole) .sum [] fun _ _ => ⟨rfl,
    rfl, And.intro⟩

theorem succ_sumTail :
    (parseSumRest (fuel + 1) whole text).Derives .sumTail text [] := by
  cases text with
  | nil => exact fun _ => ⟨.sumEnd, trivial, rfl, rfl⟩
  | cons d rest =>
      have hnext := h.product whole rest
      rw [parseSumRest]
      split
      · rename_i hplus
        rw [hplus]
        exact (hnext.push .add).andThen (h.sumTail whole) .plus [octet '+']
          fun _ _ => ⟨rfl, rfl, And.intro⟩
      split
      · rename_i hminus
        rw [hminus]
        exact (hnext.push .subtract).andThen (h.sumTail whole)
          .minus [octet '-']
          fun _ _ => ⟨rfl, rfl, And.intro⟩
      · exact fun _ => ⟨.sumEnd, trivial, rfl, rfl⟩

theorem succ_product :
    (parseProduct (fuel + 1) whole text).Derives .product text [] :=
  (h.factor whole text).andThen (h.productTail whole) .product [] fun _ _ =>
    ⟨rfl, rfl, And.intro⟩

theorem succ_productTail :
    (parseProductRest (fuel + 1) whole text).Derives .productTail text [] := by
  cases text with
  | nil => exact fun _ => ⟨.productEnd, trivial, rfl, rfl⟩
  | cons d rest =>
      have hnext := h.factor whole rest
      rw [parseProductRest]
      split
      · rename_i htimes
        rw [htimes]
        exact (hnext.push .multiply).andThen (h.productTail whole)
          .times [octet '*']
          fun _ _ => ⟨rfl, rfl, And.intro⟩
      split
      · rename_i hslash
        rw [hslash]
        exact (hnext.push .divide).andThen (h.productTail whole)
          .divided [octet '/']
          fun _ _ => ⟨rfl, rfl, And.intro⟩
      · exact fun _ => ⟨.productEnd, trivial, rfl, rfl⟩

/-- A factor, if its parts are. -/
theorem succ_factor :
    (parseFactor (fuel + 1) whole text).Derives .factor text [] := by
  cases text with
  | nil => exact derives_fail _ _
  | cons d rest =>
      have hof := h.factor whole rest
      rw [parseFactor]
      split
      · rename_i hplus
        rw [hplus]
        intro hnone
        obtain ⟨phrase, hleaves, htext, hsteps⟩ := hof hnone
        exact ⟨.positive phrase, hleaves,
          congrArg (octet '+' :: ·) htext, hsteps⟩
      split
      · rename_i hminus
        rw [hminus]
        intro hnone
        obtain ⟨phrase, hleaves, htext, hsteps⟩ := hof.push .negate hnone
        exact ⟨.negative phrase, hleaves, congrArg (octet '-' :: ·) htext,
          hsteps.trans (List.append_nil _).symm⟩
      split
      · exact derives_fail _ _
      split
      · rename_i hopen
        rw [hopen]
        exact h.group rest
      split
      · rename_i hstar
        exact derives_leaf (l := .here) trivial trivial (by rw [hstar]; rfl)
      split
      · exact derives_parseDecimal ‹_› rest
      split
      · exact derives_parseNamed ‹_› rest
      · exact derives_fail _ _

/-- What the scanner splits off is read as a text of its own. -/
theorem succ_group :
    (parseGroup (fuel + 1) (Scan.openParen :: text)).Derives .factor
      (Scan.openParen :: text) [] := by
  rw [parseGroup]
  split
  · exact derives_fail _ _
  · rename_i inner rest hsplit
    rw [Scan.parenthesized?_eq_some hsplit]
    intro hnone
    obtain ⟨phrase, hleaves, rfl, hsteps, hrest⟩ :=
      (h.sum inner inner).whole hnone rfl fun _ _ => Option.some_ne_none _
    have hyield : (Phrase.bare (.group phrase)).yield ++ rest =
        Scan.openParen :: (phrase.yield ++ Scan.closeParen :: rest) := by
      rw [Phrase.yield, Phrase.yield, List.cons_append, List.append_assoc]
      rfl
    exact ⟨.bare (.group phrase), hleaves,
      (congrArg (_ ++ ·) hrest).trans hyield,
      hsteps.trans (List.append_nil _).symm⟩

end ReadsPhrases

/-- **Every part of the reader reads phrases of its category.**  By induction on
the number of calls that are left. -/
theorem readsPhrases (fuel : Nat) : ReadsPhrases fuel := by
  induction fuel with
  | zero =>
      refine ⟨?_, ?_, ?_, ?_, ?_, ?_⟩
      · exact fun _ _ => derives_fail _ _
      · exact fun _ _ _ => ⟨.sumEnd, trivial, rfl, rfl⟩
      · exact fun _ _ => derives_fail _ _
      · exact fun _ _ _ => ⟨.productEnd, trivial, rfl, rfl⟩
      · exact fun _ _ => derives_fail _ _
      · exact fun _ => derives_fail _ _
  | succ fuel h =>
      exact ⟨h.succ_sum, h.succ_sumTail, h.succ_product, h.succ_productTail,
        h.succ_factor, h.succ_group⟩

/-! ### Reading texts -/

theorem isBlank_cons {d : UInt8} (hascii : d < 0x80)
    (hd : isWhiteSpace d.toNat = false) (rest : Bytes) :
    isBlank (d :: rest) = false := by
  have hfirst : (Utf8.first d rest).code = d.toNat := by
    rw [Utf8.first.eq_def, if_pos hascii]
  simp [isBlank, Utf8.decode, Utf8.decodeFrom, hfirst, hd]

/-- What an expression begins with is no white space. -/
theorem isBlank_yield {c : Category} (p : Phrase c) (hsum : c ≠ .sumTail)
    (hproduct : c ≠ .productTail) (rest : Bytes) :
    isBlank (p.yield ++ rest) = false := by
  induction p generalizing rest with
  | sum first tail ihFirst _ | product first tail ihFirst _ =>
      rw [Phrase.yield, List.append_assoc]
      exact ihFirst (by decide) (by decide) _
  | sumEnd | plus | minus => exact absurd rfl hsum
  | productEnd | times | divided => exact absurd rfl hproduct
  | positive | negative | group => exact isBlank_cons (by decide) (by decide) _
  | bare term ih => exact ih (by decide) (by decide) rest
  | leaf l hl =>
      obtain ⟨d, more, htext, hd⟩ := Phrase.head_text hl
      rw [Phrase.yield, htext]
      obtain ⟨hlow, hhigh⟩ : 0x21 ≤ d.toNat ∧ d.toNat < 0x80 := by
        simp only [isDigit, isSymbolStart, Bool.or_eq_true, Bool.and_eq_true,
          decide_eq_true_eq, UInt8.le_iff_toNat_le, ← UInt8.toNat_inj] at hd
        simp [octet] at hd
        omega
      refine isBlank_cons (UInt8.lt_iff_toNat_lt.mpr hhigh) ?_ _
      simp only [isWhiteSpace, Bool.or_eq_false_iff, Bool.and_eq_false_iff,
        decide_eq_false_iff_not]
      omega

/-- **A text is read as the steps of its derivation**, if the terms are in
range. -/
theorem parse_yield (p : Phrase .sum) (hp : p.Leaves Leaf.Readable) :
    parse p.yield = .ok p.steps [] := by
  have hread : parseSum _ p.yield _ = _ :=
    p.read_yield hp (4 * p.yield.length + 4) p.yield
      (Phrase.follows_nil _) (by simp only [Category.calls]; omega)
  have hblank := isBlank_yield p nofun nofun []
  rw [List.append_nil] at hread hblank
  rw [parse, hblank, if_neg (by simp), hread]
  simp [Parsed.andThen, Parsed.ok]

/-- **A text that is read without a problem has a derivation.** -/
theorem derives_parse {text : Bytes} (h : (parse text).problem = none) :
    ∃ p : Phrase .sum, p.Leaves Leaf.Readable ∧ p.yield = text ∧
      (parse text).steps = p.steps := by
  unfold parse at h ⊢
  split at h
  · simp [Parsed.fail] at h
  · obtain ⟨p, hleaves, htext, hsteps, -⟩ :=
      ((readsPhrases (4 * text.length + 4)).sum text text).whole h rfl
        fun _ _ => Option.some_ne_none _
    rename_i hblank
    rw [if_neg hblank]
    exact ⟨p, hleaves, htext, hsteps⟩

end Expression

end System370
