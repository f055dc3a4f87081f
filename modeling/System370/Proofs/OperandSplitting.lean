import System370.Proofs.ExpressionMeaning
import System370.Proofs.OperandValues

/-!
# Taking operands apart

An operand in storage is taken apart where a group begins that it ends with, if
something stands in front of the group.  The scanner that finds the group does
not know the grammar: an expression may itself end with a group, and then it is
taken apart as well.

* `Phrase.ending`: the group that an expression ends with, by recursion on its
  derivation;
* `closingGroup_yield`: the scanner finds that group and no other one;
* `Phrase.yield_ne_front`: what stands in front of the group is no expression;
* `Generate.storageOperand_yield`: so an expression is read as a whole if it
  does not end with a group behind something else, and is refused if it does.
-/

namespace System370

namespace Scan

/-! ### The group at the end -/

/-- The depth behind some marks, unless they close the outermost group they are
in. -/
def depthAfter (depth : Nat) : List Mark → Option Nat
  | [] => some depth
  | m :: rest =>
    if m.is openParen then depthAfter (depth + 1) rest
    else if m.is closeParen then if depth = 1 then none else
      depthAfter (depth - 1) rest
    else depthAfter depth rest

/-- Where the depth comes to an end, the parenthesis is closed. -/
theorem closeAt_of_depthAfter_eq_none {ms : List Mark} {depth : Nat}
    (hdepth : 1 ≤ depth) (h : depthAfter depth ms = none) (rest : List Mark) :
    ∃ i < ms.length, closeAt depth (ms ++ rest) = some i := by
  have hlater : ∀ {ms : List Mark} {found : Option Nat},
      (∃ i < ms.length, found = some i) →
      ∃ i < ms.length + 1, found.map (· + 1) = some i := by
    rintro ms _ ⟨i, hi, rfl⟩
    exact ⟨i + 1, by omega, rfl⟩
  fun_induction depthAfter depth ms with
  | case1 depth => simp at h
  | case2 depth m ms hopen ih =>
      rw [List.cons_append, closeAt, if_pos hopen]
      exact hlater (ih (by omega) h)
  | case3 m ms hopen hclose =>
      rw [List.cons_append, closeAt, if_neg hopen, if_pos hclose,
        if_pos (by omega)]
      exact ⟨0, by simp, rfl⟩
  | case4 depth m ms hopen hclose hmany ih =>
      have hless : (depth : Int) - 1 = (depth - 1 : Nat) := by omega
      rw [List.cons_append, closeAt, if_neg hopen, if_pos hclose,
        if_neg (by omega), hless]
      exact hlater (ih (by omega) h)
  | case5 depth m ms hopen hclose ih =>
      rw [List.cons_append, closeAt, if_neg hopen, if_neg hclose]
      exact hlater (ih hdepth h)

/-- Where it does not, the search goes on behind. -/
theorem closeAt_of_depthAfter_eq_some {ms : List Mark} {depth depth' : Nat}
    (hdepth : 1 ≤ depth) (h : depthAfter depth ms = some depth')
    (rest : List Mark) :
    1 ≤ depth' ∧ closeAt depth (ms ++ rest) = (closeAt depth' rest).map
      (· + ms.length) := by
  have hlater : ∀ {ms : List Mark} {found : Option Nat},
      1 ≤ depth' ∧ found = (closeAt depth' rest).map (· + ms.length) →
      1 ≤ depth' ∧ found.map (· + 1) = (closeAt depth' rest).map
        (· + (ms.length + 1)) := by
    rintro ms _ ⟨hle, rfl⟩
    exact ⟨hle, by rw [Option.map_map]; rfl⟩
  fun_induction depthAfter depth ms with
  | case1 depth =>
      obtain rfl := Option.some.inj h
      exact ⟨hdepth, by simp⟩
  | case2 depth m ms hopen ih =>
      rw [List.cons_append, closeAt, if_pos hopen]
      exact hlater (ih (by omega) h)
  | case3 => simp at h
  | case4 depth m ms hopen hclose hmany ih =>
      have hless : (depth : Int) - 1 = (depth - 1 : Nat) := by omega
      rw [List.cons_append, closeAt, if_neg hopen, if_pos hclose,
        if_neg (by omega), hless]
      exact hlater (ih (by omega) h)
  | case5 depth m ms hopen hclose ih =>
      rw [List.cons_append, closeAt, if_neg hopen, if_neg hclose]
      exact hlater (ih hdepth h)

/-- A search for the last group passes over marks that close no group they are
in.  What stands in front of them may be in groups, `more` of them. -/
theorem groupFrom_of_depthAfter {ms : List Mark} {depth depth' : Nat}
    (hdepth : 1 ≤ depth) (h : depthAfter depth ms = some depth') {more : Nat}
    {rest : List Mark} (hrest : 0 < more ∨ rest ≠ []) (position start : Nat) :
    ∃ start', groupFrom position (depth - 1 + more) start (ms ++ rest) =
      groupFrom (position + ms.length) (depth' - 1 + more) start' rest ∧
    (0 < more → start' = start) := by
  have hposition : ∀ position (m : Mark) ms,
      position + 1 + ms.length = position + (m :: ms).length := by
    intro position m ms
    rw [List.length_cons]
    omega
  fun_induction depthAfter depth ms generalizing position start with
  | case1 depth =>
      obtain rfl := Option.some.inj h
      exact ⟨start, rfl, fun _ => rfl⟩
  | case2 depth m ms hopen ih =>
      obtain ⟨start', hsame, hstart⟩ := ih (by omega) h (position + 1)
        (if depth - 1 + more = 0 then position else start)
      have hdeeper : depth + 1 - 1 + more = depth - 1 + more + 1 := by omega
      rw [List.cons_append, groupFrom, if_pos hopen, ← hdeeper, hsame]
      refine ⟨start', congrArg (groupFrom · _ _ _) (hposition position m ms),
        fun hmore => ?_⟩
      rw [hstart hmore, if_neg (by omega)]
  | case3 => simp at h
  | case4 depth m ms hopen hclose hmany ih =>
      obtain ⟨start', hsame, hstart⟩ := ih (by omega) h (position + 1) start
      have hless : depth - 1 + more - 1 = depth - 1 - 1 + more := by omega
      have hnot : ¬ (depth - 1 + more = 1 ∧ ms ++ rest = []) := by
        rintro ⟨hone, hnil⟩
        have hmore :=
          hrest.resolve_right (by simp [(List.append_eq_nil_iff.mp hnil).2])
        omega
      rw [List.cons_append, groupFrom, if_neg hopen, if_pos hclose, if_neg hnot,
        hless, hsame]
      exact ⟨start',
        congrArg (groupFrom · _ _ _) (hposition position m ms), hstart⟩
  | case5 depth m ms hopen hclose ih =>
      obtain ⟨start', hsame, hstart⟩ := ih hdepth h (position + 1) start
      rw [List.cons_append, groupFrom, if_neg hopen, if_neg hclose, hsame]
      exact ⟨start',
        congrArg (groupFrom · _ _ _) (hposition position m ms), hstart⟩

/-- **Balanced marks are passed over** by a search for the last group, if it
does not end with them. -/
theorem Balanced.groupFrom {ms : List Mark} (h : Balanced ms) {depth : Nat}
    {rest : List Mark} (hrest : 0 < depth ∨ rest ≠ [])
    (position start : Nat) : ∃ start',
      groupFrom position depth start (ms ++ rest) = groupFrom
        (position + ms.length) depth start' rest ∧
        (0 < depth → start' = start) := by
  have hclosed := h 1 (by decide) [⟨closeParen, false⟩]
  have hlast : closeAt 1 [⟨closeParen, false⟩] = some 0 := rfl
  rw [hlast] at hclosed
  have hdepth : depthAfter 1 ms = some 1 := by
    cases hafter : depthAfter 1 ms with
    | none =>
        obtain ⟨i, hi, hfound⟩ := closeAt_of_depthAfter_eq_none (Nat.le_refl 1)
          hafter [⟨closeParen, false⟩]
        have hsame : i = 0 + ms.length :=
          Option.some.inj (hfound.symm.trans hclosed)
        omega
    | some depth' =>
        obtain ⟨hle, hfound⟩ := closeAt_of_depthAfter_eq_some (Nat.le_refl 1)
          hafter [⟨closeParen, false⟩]
        have hsame : (closeAt depth' [⟨closeParen, false⟩]).map
            (· + ms.length) = some (0 + ms.length) :=
          hfound.symm.trans hclosed
        by_cases hone : depth' = 1
        · rw [hone]
        · have hnone : closeAt depth' [⟨closeParen, false⟩] = none := by
            rw [closeAt, if_neg (by decide), if_pos (by decide),
              if_neg (by omega)]
            rfl
          simp [hnone] at hsame
  simpa using groupFrom_of_depthAfter (Nat.le_refl 1) hdepth hrest
    position start

/-- A group that is found begins with an opening parenthesis, or began in front
of the marks, and ends with the last mark. -/
theorem groupFrom_eq_some {position depth start k : Nat}
    {ms : List Mark} (h : groupFrom position depth start ms = some k) :
    (k = start ∧ 0 < depth ∨ ∃ j,
      k = position + j ∧ (ms[j]?).any (·.is openParen) = true) ∧
      (ms.getLast?).any (·.is closeParen) = true := by
  induction ms generalizing position depth start with
  | nil => simp [groupFrom] at h
  | cons m rest ih =>
      have hlater : ∀ {depth' start'},
          groupFrom (position + 1) depth' start' rest = some k →
          (k = start' ∧ 0 < depth' ∨ ∃ j,
            k = position + j ∧ ((m :: rest)[j]?).any (·.is openParen) = true) ∧
          ((m :: rest).getLast?).any (·.is closeParen) = true := by
        intro depth' start' hrest
        obtain ⟨hstart, hlast⟩ := ih hrest
        constructor
        · obtain hstart | ⟨j, hk, hopen⟩ := hstart
          · exact Or.inl hstart
          · exact Or.inr ⟨j + 1, by omega, hopen⟩
        · rw [List.getLast?_cons]
          cases hend : rest.getLast? with
          | none => simp [hend] at hlast
          | some last => simpa [hend] using hlast
      rw [groupFrom] at h
      split at h
      · rename_i hopen
        obtain ⟨⟨hk, -⟩ | hinside, hlast⟩ := hlater h
        · refine ⟨?_, hlast⟩
          split at hk
          · exact Or.inr ⟨0, hk, hopen⟩
          · exact Or.inl ⟨hk, by omega⟩
        · exact ⟨Or.inr hinside, hlast⟩
      · split at h
        · rename_i hclose
          split at h
          · rename_i hend
            obtain ⟨rfl, rfl⟩ := hend
            exact ⟨Or.inl
              ⟨(Option.some.inj h).symm, by decide⟩, by simpa using hclose⟩
          · obtain ⟨⟨hk, hdepth⟩ | hinside, hlast⟩ := hlater h
            · exact ⟨Or.inl ⟨hk, by omega⟩, hlast⟩
            · exact ⟨Or.inr hinside, hlast⟩
        · exact hlater h

/-- Where the group begins that a text ends with, if `before` stands in front of
it. -/
def EndsAt (before text : Bytes) (n : Option Nat) : Prop :=
  ∀ position start, groupFrom position 0 start (mark before .outside text).1 =
    n.map (position + ·)

/-- The last group of an operand is where it ends. -/
theorem EndsAt.closingGroup {text : Bytes} {n : Option Nat}
    (h : EndsAt [] text n) :
    closingGroup text = n := by
  rw [closingGroup_eq, marks, h 0 0]
  cases n <;> simp

theorem endsAt_nil (before : Bytes) : EndsAt before [] none := fun _ _ => rfl

/-- A text behind one that the scanner passes over. -/
theorem Passes.endsAt {before text rest : Bytes} {n : Option Nat}
    (h : Passes before text rest) (hrest : rest ≠ [])
    (hends : EndsAt (text.reverse ++ before) rest n) :
    EndsAt before (text ++ rest) (n.map (text.length + ·)) := by
  intro position start
  obtain ⟨ms, hbalanced, hlength, hmarks⟩ := h
  have hne : (mark (text.reverse ++ before) .outside rest).1 ≠ [] := by
    intro hnil
    have hoctets := octets_mark (text.reverse ++ before) .outside rest
    rw [hnil] at hoctets
    exact hrest hoctets.symm
  obtain ⟨start', hsame, -⟩ := hbalanced.groupFrom (Or.inr hne) position start
  rw [hmarks, hsame, hends, hlength, Option.map_map]
  congr 1
  funext i
  exact Nat.add_assoc _ _ _

/-- A text that is a group. -/
theorem Passes.endsAt_group {before text : Bytes}
    (h : Passes (openParen :: before) text [closeParen]) :
    EndsAt before (openParen :: (text ++ [closeParen])) (some 0) := by
  intro position start
  obtain ⟨ms, hbalanced, hlength, hmarks⟩ := h
  have hopen : (mark before .outside (openParen :: (text ++ [closeParen]))).1 =
      ⟨openParen, false⟩ ::
        (mark (openParen :: before) .outside (text ++ [closeParen])).1 := by
    simp [mark, Quoting.step, openParen, quote]
  have hclose :
      (mark (text.reverse ++ openParen :: before) .outside [closeParen]).1 =
      [⟨closeParen, false⟩] := by
    simp [mark, Quoting.step, closeParen, quote]
  obtain ⟨start', hsame, hstart⟩ : ∃ start',
      groupFrom (position + 1) 1 position (ms ++ [⟨closeParen, false⟩]) =
        groupFrom (position + 1 + ms.length) 1 start' [⟨closeParen, false⟩] ∧
      (0 < 1 → start' = position) :=
    hbalanced.groupFrom (Or.inl Nat.zero_lt_one) _ _
  rw [hopen, hmarks, hclose, groupFrom, if_pos (by decide), if_pos rfl, hsame,
    hstart (by decide),
    groupFrom, if_neg (by decide), if_pos (by decide), if_pos ⟨rfl, rfl⟩]
  rfl

/-- A text that does not end with a closing parenthesis. -/
theorem endsAt_none {before text : Bytes}
    (h : text.getLast? ≠ some closeParen) :
    EndsAt before text none := by
  intro position start
  cases hfound : groupFrom position 0 start (mark before .outside text).1 with
  | none => rfl
  | some k =>
      have hlast := (groupFrom_eq_some hfound).2
      obtain ⟨m, hm, hclose⟩ := (Option.any_eq_true _ _).mp hlast
      have hoctet : text.getLast? = some m.octet := by
        rw [← octets_mark before .outside text, List.getLast?_map, hm]
        rfl
      simp only [Mark.is, Bool.and_eq_true, decide_eq_true_eq] at hclose
      exact absurd (hoctet.trans (congrArg some hclose.1)) h

end Scan

namespace Expression

/-! ### Expressions that end with a group -/

namespace Phrase

/-- The end of a text in a group: the text in front of the group, and the sum in
it. -/
abbrev Ending := Option (Bytes × Phrase .sum)

/-- An ending behind some text. -/
def Ending.behind (text : Bytes) (e : Ending) : Ending :=
  e.map fun x => (text ++ x.1, x.2)

/-- A group behind a text. -/
theorem Ending.behind_eq_some {text front : Bytes} {e : Ending}
    {inner : Phrase .sum} (h : e.behind text = some (front, inner)) :
    ∃ front', front = text ++ front' ∧ e = some (front', inner) := by
  obtain ⟨⟨front', inner'⟩, he, heq⟩ := Option.map_eq_some_iff.mp h
  obtain ⟨rfl, rfl⟩ := Prod.mk.inj heq
  exact ⟨front', rfl, he⟩

/-- The ending of two texts together: that of the second one, if it is not
empty. -/
def Ending.join (text : Bytes) (e : Ending) (rest : Bytes)
    (e' : Ending) : Ending :=
  if rest = [] then e else e'.behind text

/-- The group that a phrase ends with. -/
def ending : {c : Category} → Phrase c → Ending
  | _, .sum first rest => .join first.yield first.ending rest.yield rest.ending
  | _, .sumEnd => none
  | _, .plus next rest => (Ending.join next.yield next.ending rest.yield
    rest.ending).behind [octet '+']
  | _, .minus next rest => (Ending.join next.yield next.ending rest.yield
    rest.ending).behind [octet '-']
  | _,
    .product first rest => .join first.yield first.ending rest.yield rest.ending
  | _, .productEnd => none
  | _, .times next rest => (Ending.join next.yield next.ending rest.yield
    rest.ending).behind [octet '*']
  | _, .divided next rest => (Ending.join next.yield next.ending rest.yield
    rest.ending).behind [octet '/']
  | _, .positive of => of.ending.behind [octet '+']
  | _, .negative of => of.ending.behind [octet '-']
  | _, .bare term => term.ending
  | _, .group inner => some ([], inner)
  | _, .leaf _ _ => none

/-- Whether a text is spelled as its ending says. -/
def Ending.Spells (text : Bytes) (e : Ending) : Prop :=
  ∀ front inner, e = some (front, inner) →
    text = front ++ octet '(' :: (inner.yield ++ [octet ')'])

section Spells

variable {text rest : Bytes} {e e' : Ending}

theorem Ending.Spells.behind (h : Spells text e) (front : Bytes) :
    Spells (front ++ text) (e.behind front) := by
  intro front' inner hsome
  obtain ⟨middle, rfl, hx⟩ := Ending.behind_eq_some hsome
  rw [h middle inner hx, List.append_assoc]

/-- What two texts end with is spelled by both together. -/
theorem Ending.Spells.join (h : Spells text e) (h' : Spells rest e') :
    Spells (text ++ rest) (Ending.join text e rest e') := by
  unfold Ending.join
  split
  · rename_i hnil
    rwa [hnil, List.append_nil]
  · exact h'.behind text

end Spells

/-- **A phrase is spelled as its ending says.** -/
theorem spells {c : Category} (p : Phrase c) : p.ending.Spells p.yield := by
  have hnone : ∀ text, Ending.Spells text none := fun _ _ _ => nofun
  induction p with
  | sum first tail ihFirst ihTail => exact ihFirst.join ihTail
  | sumEnd => exact hnone _
  | plus next tail ihNext ihTail =>
      exact (ihNext.join ihTail).behind [octet '+']
  | minus next tail ihNext ihTail =>
      exact (ihNext.join ihTail).behind [octet '-']
  | product first tail ihFirst ihTail => exact ihFirst.join ihTail
  | productEnd => exact hnone _
  | times next tail ihNext ihTail =>
      exact (ihNext.join ihTail).behind [octet '*']
  | divided next tail ihNext ihTail =>
      exact (ihNext.join ihTail).behind [octet '/']
  | positive of ih => exact ih.behind [octet '+']
  | negative of ih => exact ih.behind [octet '-']
  | bare term ih => exact ih
  | group inner =>
      rintro _ _ ⟨⟩
      rfl
  | leaf l hl => exact hnone _

/-! ### The scanner finds the ending -/

/-- The length of the text in front of an ending. -/
def Ending.position (e : Ending) : Option Nat := e.map (·.1.length)

section EndsAt

variable {before text rest : Bytes} {e e' : Ending}

theorem Ending.position_behind (front : Bytes) :
    (e.behind front).position = e.position.map (front.length + ·) := by
  unfold Ending.position Ending.behind
  rw [Option.map_map, Option.map_map]
  congr 1
  funext x
  exact List.length_append

/-- **A last group** is found in two texts as in one. -/
theorem endsAt_join (hpasses : Scan.Passes before text rest)
    (h : Scan.EndsAt before text e.position)
    (h' : Scan.EndsAt (text.reverse ++ before) rest e'.position) :
    Scan.EndsAt before (text ++ rest)
      (Ending.join text e rest e').position := by
  unfold Ending.join
  split
  · rename_i hnil
    rwa [hnil, List.append_nil]
  · rename_i hrest
    rw [Ending.position_behind]
    exact hpasses.endsAt hrest h'

/-- An operator in front of a text. -/
theorem endsAt_behind {d : UInt8} (hd : IsOperator d) (htext : text ≠ [])
    (h : Apart (d :: before) → Scan.EndsAt (d :: before) text e.position) :
    Scan.EndsAt before (d :: text) (e.behind [d]).position := by
  rw [Ending.position_behind]
  exact (passes_operator hd before text).endsAt htext
    (h (apart_operator hd before))

end EndsAt

/-- A term that is no group does not end with a closing parenthesis. -/
theorem getLast?_text {l : Leaf} (hl : l.WellFormed) :
    l.text.getLast? ≠ some (octet ')') := by
  have hplain : ∀ {text : Bytes}, (∀ c ∈ text, c ≠ octet ')') →
      text.getLast? ≠ some (octet ')') :=
    fun h hlast => h _ (List.mem_of_getLast? hlast) rfl
  cases l with
  | decimal digits =>
      exact hplain fun c hc => ne_of_digit (hl.2 c hc) (by decide)
  | selfDefining kind body =>
      have hlast : (Leaf.selfDefining kind body).text.getLast? =
          some quote := by
        rw [Leaf.text, ← List.cons_append, ← List.cons_append,
          List.getLast?_append]
        rfl
      rw [hlast]
      decide
  | lengthOf letter name =>
      refine hplain (List.forall_mem_cons.mpr
        ⟨ne_of_start (start_of_length hl.1) (by decide),
        List.forall_mem_cons.mpr ⟨by decide,
          fun c hc => (hl.2.plain c hc).2.2⟩⟩)
  | lengthHere letter =>
      have hlast : (Leaf.lengthHere letter).text.getLast? = some (octet '*') :=
        rfl
      rw [hlast]
      decide
  | here => decide
  | symbol name => exact hplain fun c hc => (IsName.plain hl c hc).2.2

/-- A phrase that is no tail has some text. -/
theorem yield_ne_nil {c : Category} (p : Phrase c) (hsum : c ≠ .sumTail)
    (hproduct : c ≠ .productTail) :
    p.yield ≠ [] := by
  intro hnil
  have hblank := isBlank_yield p hsum hproduct []
  rw [hnil] at hblank
  exact absurd hblank (by decide)

/-- The scanner passes over a summand in front of the rest of a sum. -/
theorem passes_summand (next : Phrase .product) (tail : Phrase .sumTail)
    {before : Bytes} (hbefore : Apart before) :
    Scan.Passes before next.yield tail.yield := by
  have hfollows := follows_sumTail tail (follows_nil _)
  rw [List.append_nil] at hfollows
  exact next.passes (Or.inr (Or.inr hbefore)) hfollows

/-- The scanner passes over a factor in front of the rest of a product. -/
theorem passes_factor (next : Phrase .factor) (tail : Phrase .productTail)
    {before : Bytes} (hbefore : Apart before) :
    Scan.Passes before next.yield tail.yield := by
  have hfollows := follows_productTail tail (follows_nil _)
  rw [List.append_nil] at hfollows
  exact next.passes (Or.inr (Or.inr hbefore)) hfollows

/-- **The scanner finds the group that a phrase ends with**, and no other
one. -/
theorem endsAt {c : Category} (p : Phrase c) {before : Bytes}
    (hbefore : c.Behind before) :
    Scan.EndsAt before p.yield p.ending.position := by
  have hapart : ∀ {before : Bytes} {c : Category},
      c ≠ .sumTail → c ≠ .productTail → c.Behind before →
      Apart before :=
    fun hsum hproduct h => (h.resolve_left hsum).resolve_left hproduct
  have hsome : ∀ {c c' : Category} (next : Phrase c) (tail : Phrase c'),
      c ≠ .sumTail →
      c ≠ .productTail → next.yield ++ tail.yield ≠ [] :=
    fun next tail hsum hproduct =>
      List.append_ne_nil_of_left_ne_nil (yield_ne_nil next hsum hproduct) _
  induction p generalizing before with
  | sum first tail ihFirst ihTail =>
      have hb := hapart (by decide) (by decide) hbefore
      exact endsAt_join (passes_summand first tail hb)
        (ihFirst (Or.inr (Or.inr hb))) (ihTail (Or.inl rfl))
  | sumEnd => exact Scan.endsAt_nil before
  | plus next tail ihNext ihTail | minus next tail ihNext ihTail =>
      exact endsAt_behind (by simp [IsOperator])
        (hsome next tail (by decide) (by decide)) fun hb =>
        endsAt_join (passes_summand next tail hb) (ihNext (Or.inr (Or.inr hb)))
          (ihTail (Or.inl rfl))
  | product first tail ihFirst ihTail =>
      have hb := hapart (by decide) (by decide) hbefore
      exact endsAt_join (passes_factor first tail hb)
        (ihFirst (Or.inr (Or.inr hb)))
        (ihTail (Or.inr (Or.inl rfl)))
  | productEnd => exact Scan.endsAt_nil before
  | times next tail ihNext ihTail | divided next tail ihNext ihTail =>
      exact endsAt_behind (by simp [IsOperator])
        (hsome next tail (by decide) (by decide)) fun hb =>
        endsAt_join (passes_factor next tail hb) (ihNext (Or.inr (Or.inr hb)))
          (ihTail (Or.inr (Or.inl rfl)))
  | positive of ih | negative of ih =>
      exact endsAt_behind (by simp [IsOperator])
        (yield_ne_nil of (by decide) (by decide)) fun hb =>
        ih (Or.inr (Or.inr hb))
  | bare term ih =>
      exact ih (Or.inr (Or.inr (hapart (by decide) (by decide) hbefore)))
  | group inner =>
      exact (inner.passes (Or.inr (Or.inr (apart_open before)))
        (follows_close _ [])).endsAt_group
  | leaf l hl => exact Scan.endsAt_none (getLast?_text hl)

/-! ### What stands in front of an ending -/

/-- Whether the last factor of a phrase has a sign. -/
def signed : {c : Category} → Phrase c → Bool
  | _, .sum first rest => if rest.yield = [] then first.signed else rest.signed
  | _, .plus next rest => if rest.yield = [] then next.signed else rest.signed
  | _, .minus next rest => if rest.yield = [] then next.signed else rest.signed
  | _, .product first rest => if rest.yield = [] then
    first.signed else rest.signed
  | _, .times next rest => if rest.yield = [] then next.signed else rest.signed
  | _, .divided next rest => if rest.yield = [] then
    next.signed else rest.signed
  | _, .positive _ => true
  | _, .negative _ => true
  | _, _ => false

/-- The number one as a factor. -/
def one : Phrase .factor :=
  .bare (.leaf (.decimal [octet '1']) (by simp [Leaf.WellFormed]; decide))

/-- Whether in the place of the group that a phrase ends with there may be a
number with a sign. -/
def GivesWay {c : Category} (p : Phrase c) : Prop :=
  ∀ front inner, p.ending = some (front, inner) →
    ∃ q : Phrase c, q.yield = front ++ bytes "+1" ∧ q.signed = true

/-- Two phrases in sequence. -/
theorem exists_signed_join {c c' : Category} {first : Phrase c}
    {tail : Phrase c'} (hfirst : first.GivesWay)
    (htail : tail.GivesWay) {front : Bytes} {inner : Phrase .sum}
    (h : Ending.join first.yield first.ending tail.yield tail.ending =
      some (front, inner)) :
    ∃ (p : Phrase c) (q : Phrase c'), p.yield ++ q.yield = front ++ bytes "+1" ∧
      (if q.yield = [] then p.signed else q.signed) = true := by
  unfold Ending.join at h
  split at h
  · rename_i hnil
    obtain ⟨p, hyield, hsigned⟩ := hfirst front inner h
    exact ⟨p,
      tail, by rw [hnil, List.append_nil, hyield], by rw [if_pos hnil, hsigned]⟩
  · obtain ⟨front', rfl, hending⟩ := Ending.behind_eq_some h
    obtain ⟨q, hyield, hsigned⟩ := htail front' inner hending
    have hne : q.yield ≠ [] := by
      rw [hyield]
      exact List.append_ne_nil_of_right_ne_nil _ (by decide)
    exact ⟨first,
      q, by rw [hyield, List.append_assoc], by rw [if_neg hne, hsigned]⟩

/-- **The group that a phrase ends with gives way to a number with a sign**,
unless the phrase is a term. -/
theorem givesWay {c : Category} (p : Phrase c) (hterm : c ≠ .term) :
    p.GivesWay := by
  induction p with
  | sum first tail ihFirst ihTail =>
      intro front inner h
      obtain ⟨p, q, hyield, hsigned⟩ :=
        exists_signed_join (ihFirst (by decide)) (ihTail (by decide)) h
      exact ⟨.sum p q, hyield, hsigned⟩
  | sumEnd => exact fun _ _ => nofun
  | plus next tail ihNext ihTail =>
      intro front inner h
      obtain ⟨front, rfl, hmore⟩ := Ending.behind_eq_some h
      obtain ⟨p, q, hyield, hsigned⟩ :=
        exists_signed_join (ihNext (by decide)) (ihTail (by decide)) hmore
      exact ⟨.plus p q, congrArg (octet '+' :: ·) hyield, hsigned⟩
  | minus next tail ihNext ihTail =>
      intro front inner h
      obtain ⟨front, rfl, hmore⟩ := Ending.behind_eq_some h
      obtain ⟨p, q, hyield, hsigned⟩ :=
        exists_signed_join (ihNext (by decide)) (ihTail (by decide)) hmore
      exact ⟨.minus p q, congrArg (octet '-' :: ·) hyield, hsigned⟩
  | product first tail ihFirst ihTail =>
      intro front inner h
      obtain ⟨p, q, hyield, hsigned⟩ :=
        exists_signed_join (ihFirst (by decide)) (ihTail (by decide)) h
      exact ⟨.product p q, hyield, hsigned⟩
  | productEnd => exact fun _ _ => nofun
  | times next tail ihNext ihTail =>
      intro front inner h
      obtain ⟨front, rfl, hmore⟩ := Ending.behind_eq_some h
      obtain ⟨p, q, hyield, hsigned⟩ :=
        exists_signed_join (ihNext (by decide)) (ihTail (by decide)) hmore
      exact ⟨.times p q, congrArg (octet '*' :: ·) hyield, hsigned⟩
  | divided next tail ihNext ihTail =>
      intro front inner h
      obtain ⟨front, rfl, hmore⟩ := Ending.behind_eq_some h
      obtain ⟨p, q, hyield, hsigned⟩ :=
        exists_signed_join (ihNext (by decide)) (ihTail (by decide)) hmore
      exact ⟨.divided p q, congrArg (octet '/' :: ·) hyield, hsigned⟩
  | positive of ih =>
      intro front inner h
      obtain ⟨front, rfl, hmore⟩ := Ending.behind_eq_some h
      obtain ⟨q, hyield, -⟩ := ih (by decide) front inner hmore
      exact ⟨.positive q, congrArg (octet '+' :: ·) hyield, rfl⟩
  | negative of ih =>
      intro front inner h
      obtain ⟨front, rfl, hmore⟩ := Ending.behind_eq_some h
      obtain ⟨q, hyield, -⟩ := ih (by decide) front inner hmore
      exact ⟨.negative q, congrArg (octet '-' :: ·) hyield, rfl⟩
  | bare term =>
      intro front inner h
      cases term with
      | group inner' =>
          obtain ⟨rfl, -⟩ := Prod.mk.inj (Option.some.inj h)
          exact ⟨.positive one, rfl, rfl⟩
      | leaf => cases h
  | group | leaf => exact absurd rfl hterm

/-- A summand without a sign of its own may stand behind a sum. -/
theorem exists_unsigned {c : Category} (q : Phrase c)
    (hc : c = .sum ∨ c = .sumTail) :
    ∃ p : Phrase c, p.yield = q.yield ++ bytes "+1" ∧ p.signed = false := by
  have hne : ∀ (text : Bytes), text ++ bytes "+1" ≠ [] :=
    fun text => List.append_ne_nil_of_right_ne_nil _ (by decide)
  induction q with
  | sum first tail _ ih =>
      obtain ⟨p, hyield, hsigned⟩ := ih (Or.inr rfl)
      refine ⟨.sum first p, ?_, ?_⟩
      · rw [yield, yield, hyield, List.append_assoc]
      · rw [signed, hyield, if_neg (hne _), hsigned]
  | sumEnd => exact ⟨.plus (.product one .productEnd) .sumEnd, rfl, rfl⟩
  | plus next tail _ ih =>
      obtain ⟨p, hyield, hsigned⟩ := ih (Or.inr rfl)
      refine ⟨.plus next p, ?_, ?_⟩
      · rw [yield, yield, hyield, List.cons_append, List.append_assoc]
      · rw [signed, hyield, if_neg (hne _), hsigned]
  | minus next tail _ ih =>
      obtain ⟨p, hyield, hsigned⟩ := ih (Or.inr rfl)
      refine ⟨.minus next p, ?_, ?_⟩
      · rw [yield, yield, hyield, List.cons_append, List.append_assoc]
      · rw [signed, hyield, if_neg (hne _), hsigned]
  | product | productEnd | times | divided | positive | negative | bare |
    group | leaf =>
      rcases hc with hc | hc <;> cases hc

/-- **What stands in front of a group at the end is no expression.** -/
theorem yield_ne_front {p : Phrase .sum} {front : Bytes} {inner : Phrase .sum}
    (h : p.ending = some (front, inner)) (q : Phrase .sum) :
    q.yield ≠ front := by
  rintro rfl
  obtain ⟨p', hyield, hsigned⟩ := p.givesWay (by decide) _ _ h
  obtain ⟨q', hyield', hunsigned⟩ := q.exists_unsigned (Or.inl rfl)
  rw [yield_injective (hyield.trans hyield'.symm), hunsigned] at hsigned
  cases hsigned

/-- Whether a phrase does not end with a group behind something else. -/
def Whole (p : Phrase .sum) : Prop := ∀ front inner,
  p.ending = some (front, inner) → front = []

/-- No expression begins with an equals sign. -/
theorem head?_yield {c : Category} (p : Phrase c) (hsum : c ≠ .sumTail)
    (hproduct : c ≠ .productTail) :
    p.yield.head? ≠ some (octet '=') := by
  induction p with
  | sum first tail ihFirst _ =>
      rw [yield, List.head?_append_of_ne_nil _
        (yield_ne_nil first (by decide) (by decide))]
      exact ihFirst (by decide) (by decide)
  | product first tail ihFirst _ =>
      rw [yield, List.head?_append_of_ne_nil _
        (yield_ne_nil first (by decide) (by decide))]
      exact ihFirst (by decide) (by decide)
  | sumEnd | plus | minus => exact absurd rfl hsum
  | productEnd | times | divided => exact absurd rfl hproduct
  | positive | negative | group =>
      exact fun h => absurd (Option.some.inj h) (by decide)
  | bare term ih => exact ih (by decide) (by decide)
  | leaf l hl =>
      obtain ⟨d, more, htext, hd⟩ := head_text hl
      rw [yield, htext]
      intro h
      obtain rfl : d = octet '=' := Option.some.inj h
      revert hd
      decide

end Phrase

end Expression

/-! ### Splitting -/

/-- A text that is not taken apart. -/
theorem splitAddress_whole {text : Bytes}
    (h : ∀ n, Scan.closingGroup text ≠ some (n + 1)) :
    splitAddress text = (text, []) := by
  unfold splitAddress
  split
  · rename_i n hn
    exact absurd hn (h n)
  · rfl

/-- **What is taken apart is some text and a list in parentheses behind it.** -/
theorem splitAddress_parts {text : Bytes} (h : (splitAddress text).2 ≠ []) :
    ∃ list, (splitAddress text).1 ≠ [] ∧
      text = (splitAddress text).1 ++ octet '(' :: (list ++ [octet ')']) ∧
      (splitAddress text).2 = Bytes.splitOn comma list := by
  have hoctets : (Scan.marks text).map (·.octet) = text :=
    Scan.octets_mark [] .outside text
  unfold splitAddress at h ⊢
  split at h
  · rename_i n hfound
    rw [Scan.closingGroup_eq] at hfound
    obtain ⟨hstart, hlast⟩ := Scan.groupFrom_eq_some hfound
    obtain ⟨j, hj, hfirst⟩ := hstart.resolve_left (by simp)
    obtain ⟨m, hm, hopen⟩ := (Option.any_eq_true _ _).mp hfirst
    obtain ⟨last, hend, hclose⟩ := (Option.any_eq_true _ _).mp hlast
    simp only [Scan.Mark.is, Bool.and_eq_true, decide_eq_true_eq]
      at hopen hclose
    obtain rfl : j = n + 1 := by omega
    have hopens : text[n + 1]? = some (octet '(') := by
      rw [← hoctets, List.getElem?_map, hm]
      exact congrArg some hopen.1
    have hcloses : text.getLast? = some (octet ')') := by
      rw [← hoctets, List.getLast?_map, hend]
      exact congrArg some hclose.1
    obtain ⟨hlt, hget⟩ := List.getElem?_eq_some_iff.mp hopens
    have hsplit : text =
        text.take (n + 1) ++ octet '(' :: text.drop (n + 2) := by
      conv => lhs; rw [← List.take_append_drop (n + 1) text,
        List.drop_eq_getElem_cons hlt, hget]
    -- the group does not end where it begins
    have hmore : (text.drop (n + 2)).getLast? = some (octet ')') := by
      rw [List.getLast?_drop, if_neg, hcloses]
      intro hle
      rw [List.getLast?_eq_getElem?] at hcloses
      have hsame : text.length - 1 = n + 1 := by omega
      rw [hsame, hopens] at hcloses
      exact absurd (Option.some.inj hcloses) (by decide)
    refine ⟨(text.drop (n + 2)).dropLast, ?_, ?_, rfl⟩
    · intro hnil
      have hlength := congrArg List.length hnil
      rw [List.length_take, List.length_nil] at hlength
      omega
    · rw [List.dropLast_append_getLast? _ hmore]
      exact hsplit
  · exact absurd rfl h

section Phrase

open Expression

variable {p : Phrase .sum}

/-- The scanner finds the group that an expression ends with. -/
theorem closingGroup_yield (p : Phrase .sum) :
    Scan.closingGroup p.yield = p.ending.position := by
  have hapart : Apart [] := by simp [Apart]
  exact (p.endsAt (Or.inr (Or.inr hapart))).closingGroup

/-- An expression that does not end with a group behind something else is not
taken apart. -/
theorem splitAddress_of_whole (h : p.Whole) :
    splitAddress p.yield = (p.yield, []) := by
  refine splitAddress_whole fun n hn => ?_
  rw [closingGroup_yield] at hn
  obtain ⟨⟨front, inner⟩, hending, hlength⟩ := Option.map_eq_some_iff.mp hn
  rw [h front inner hending] at hlength
  cases hlength

/-- Another one is taken apart where the group begins. -/
theorem splitAddress_of_ending {front : Bytes} {inner : Phrase .sum}
    (h : p.ending = some (front, inner)) (hfront : front ≠ []) :
    splitAddress p.yield = (front, Bytes.splitOn comma inner.yield) := by
  have hspelled := p.spells front inner h
  obtain ⟨n, hn⟩ :=
    Nat.exists_eq_succ_of_ne_zero (List.length_pos_iff.mpr hfront).ne'
  have hfound : Scan.closingGroup p.yield = some (n + 1) := by
    rw [closingGroup_yield, h, ← Nat.succ_eq_add_one, ← hn]
    rfl
  have hopened : p.yield = front ++ [octet '('] ++
      (inner.yield ++ [octet ')']) := by
    rw [hspelled, List.append_assoc]
    rfl
  have hlength : (front ++ [octet '(']).length = n + 2 := by
    rw [List.length_append, hn]
    rfl
  unfold splitAddress
  rw [hfound]
  simp only
  rw [hspelled, List.take_left' hn, ← hspelled, hopened,
    List.drop_left' hlength, List.dropLast_concat]

/-- An expression is not taken apart if and only if it is a whole. -/
theorem splitAddress_eq_self_iff : splitAddress p.yield = (p.yield, []) ↔
    p.Whole := by
  refine ⟨fun h front inner hending => ?_, splitAddress_of_whole⟩
  by_contra hfront
  have hsame : front = p.yield :=
    congrArg Prod.fst ((splitAddress_of_ending hending hfront).symm.trans h)
  have hlength := congrArg List.length (p.spells front inner hending)
  rw [← hsame, List.length_append, List.length_cons] at hlength
  omega

end Phrase

namespace Expression

/-- An expression has the value of its derivation, if it has one. -/
theorem evaluate_yield_iff {table : SymbolTable} {place : Place}
    {p : Phrase .sum} {result : Result} :
    (evaluate table place p.yield).result = .ok result ↔
      p.Leaves Leaf.Readable ∧
      p.Admissible table place ∧
      result = ⟨p.value table place, p.length table place⟩ := by
  constructor
  · intro h
    obtain ⟨v, n⟩ := result
    obtain ⟨q, hyield, hreadable, hdefined, habsolute, rfl, rfl⟩ :=
      exists_phrase_of_evaluate h
    rw [← Phrase.yield_injective hyield]
    exact ⟨hreadable, ⟨hdefined, habsolute⟩, rfl⟩
  · rintro ⟨hreadable, hadmissible, rfl⟩
    exact evaluate_yield hreadable hadmissible

end Expression

namespace Generate

open Expression

variable {r : Record} {g : Generation}

/-- What an expression stands for that is a whole operand. -/
theorem denotes_whole_iff {t : SymbolTable} {literals : LiteralPool}
    {holds : Register → Domain → Prop} {i : Nat} {kind : Inner}
    {p : Phrase .sum} (htext : r.operand i = p.yield) (hwhole : p.Whole)
    (hnone : boundLiteral? r literals i = none) {operand : StorageOperand} :
    r.Denotes t literals holds i kind operand ↔
      p.Leaves Leaf.Readable ∧ p.Admissible t r.place ∧ ∃ choice :
        BaseRegisters.Choice,
        choice.Addresses holds (p.value t r.place) ∧
        operand = { choice, length := p.length t r.place
                    address := if (p.value t r.place).classify = .relocatable
                      then some (p.value t r.place).number else none } := by
  have hhead : (r.operand i).head? ≠ some (octet '=') :=
    htext ▸ p.head?_yield nofun nofun
  have hallowed : ([] : List Bytes).length < kind.allowed := by
    cases kind <;> decide
  have hwrites : ∀ inner, r.Writes t kind [] inner ↔ inner = none := by
    refine fun inner => ⟨fun h => ?_,
      fun h => h ▸ .nothing (Or.inr (by decide))⟩
    cases h with
    | nothing => rfl
    | index hwritten | length hwritten => exact absurd hwritten (by decide)
  rw [Record.denotes_expression_iff hnone hhead, htext,
    splitAddress_of_whole hwhole]
  simp only [evaluate_yield_iff, hwrites, if_neg (Nat.ne_of_lt hallowed),
    and_iff_right hallowed.le, and_assoc, exists_eq_left, exists_and_left]

/-- **What is accepted and taken apart is an expression with a list in
parentheses behind it.** -/
theorem parts_of_storageOperand {op : Instruction} {kind : Inner} {i : Nat}
    {operand : StorageOperand} (hnone : boundLiteral? r g.literals i = none)
    (hparts : (splitAddress (r.operand i)).2 ≠ [])
    (hok : (exec (storageOperand op kind i (r.operand i)) r g).1 =
      (operand, none)) :
    ∃ (q : Phrase .sum) (list : Bytes),
    r.operand i = q.yield ++ octet '(' :: (list ++ [octet ')']) ∧
      splitAddress (r.operand i) = (q.yield, Bytes.splitOn comma list) := by
  have hreads : g.Reads g.symbols := ⟨rfl, fun _ => rfl⟩
  obtain ⟨list, -, htext, hlist⟩ := splitAddress_parts hparts
  have hdenotes := (storageOperand_eq_iff hreads).mp hok
  have hfront : ∃ q : Phrase .sum,
      q.yield = (splitAddress (r.operand i)).1 := by
    cases hdenotes with
    | literal hbound => simp [hnone] at hbound
    | implicit _ _ _ hresult | explicit _ _ _ hresult =>
        obtain ⟨q, hyield, -⟩ := exists_phrase_of_evaluate hresult
        exact ⟨q, hyield⟩
  obtain ⟨q, hyield⟩ := hfront
  exact ⟨q, list, hyield ▸ htext, Prod.ext hyield.symm hlist⟩

/-- An expression that is a whole operand has its value: a number below 4096 is
the displacement, and a place that some register covers takes the best one. -/
theorem storageOperand_whole {op : Instruction} {kind : Inner} {i : Nat}
    {p : Phrase .sum} (hnone : boundLiteral? r g.literals i = none)
    (htext : r.operand i = p.yield) (hreadable : p.Leaves Leaf.Readable)
    (hadmissible : p.Admissible g.symbols r.place) (hwhole : p.Whole)
    {v : Value} (hv : p.value g.symbols r.place = v) :
    (v.classify = .absolute → 0 ≤ v.number → v.number < 4096 →
      (exec (storageOperand op kind i (r.operand i)) r g).1 =
        ({ choice := ⟨0, v.number⟩, length := p.length g.symbols r.place },
          none)) ∧
    (v.classify = .relocatable → v.sectionId ≠ 0 →
      (∃ register d displacement, g.bases.Promises register d ∧
        d.Covers v.number v.sectionId displacement) →
      ∃ choice : BaseRegisters.Choice,
      choice.Best g.bases.Promises v.number v.sectionId ∧
        (exec (storageOperand op kind i (r.operand i)) r g).1 =
          ({ choice, address := some v.number
             length := p.length g.symbols r.place }, none)) := by
  have hdenotes : ∀ operand, (exec (storageOperand op kind i (r.operand i)) r
      g).1 = (operand, none) ↔ _ :=
    fun operand => (storageOperand_eq_iff ⟨rfl, fun _ => rfl⟩).trans
      (denotes_whole_iff htext hwhole hnone)
  subst hv
  refine ⟨fun hclass hlow hhigh => ?_,
    fun hclass hsection ⟨register, d, displacement, hd, hcovers⟩ => ?_⟩
  · refine (hdenotes _).mpr ⟨hreadable, hadmissible, _,
      .low hclass hlow hhigh, ?_⟩
    rw [if_neg (by simp [hclass])]
  · obtain ⟨choice, hchoice⟩ := BaseRegisters.exists_choose? hd hcovers
    have hbest := BaseRegisters.choose?_spec hchoice
    refine ⟨choice, hbest, (hdenotes _).mpr
      ⟨hreadable, hadmissible, choice, .inside hclass hsection hbest, ?_⟩⟩
    rw [if_pos hclass]

/-- An expression that ends with a group behind something else is refused: what
stands in front of the group is no expression. -/
theorem storageOperand_not_whole {op : Instruction} {kind : Inner} {i : Nat}
    {p : Phrase .sum} (hnone : boundLiteral? r g.literals i = none)
    (htext : r.operand i = p.yield) (hnot : ¬ p.Whole) :
    ∃ problem,
    (exec (storageOperand op kind i (r.operand i)) r g).1.2 = some problem ∧
      problem.severity.isError = true := by
  have hhead : (r.operand i).head? ≠ some (octet '=') :=
    htext ▸ p.head?_yield nofun nofun
  obtain ⟨front, hnot⟩ := not_forall.mp hnot
  obtain ⟨inner, hnot⟩ := not_forall.mp hnot
  obtain ⟨hending, hfront⟩ := Classical.not_imp.mp hnot
  cases hproblem : (exec (storageOperand op kind i (r.operand i)) r g).1.2 with
  | some problem =>
      exact ⟨problem, rfl, grave_storageOperand op kind i _ problem hproblem⟩
  | none =>
      have hok : (exec (storageOperand op kind i (r.operand i)) r g).1 =
          (_, none) := Prod.ext rfl hproblem
      have hdenotes :=
        (storageOperand_eq_iff (t := g.symbols) ⟨rfl, fun _ => rfl⟩).mp hok
      obtain ⟨-, result, hresult, -⟩ :=
        (Record.denotes_expression_iff hnone hhead).mp hdenotes
      rw [htext, splitAddress_of_ending hending hfront] at hresult
      obtain ⟨q, hyield, -⟩ := exists_phrase_of_evaluate hresult
      exact absurd hyield (Phrase.yield_ne_front hending q)

/-- **Expressions as operands in storage.**  An operand that is an expression is
read as a whole, and has no index, base or length of its own, if it does not end
with a group behind something else.  An expression that does end with such a
group is taken apart in front of it, and is refused.  Of the operands that are
taken apart only those are accepted that are an expression with a list in
parentheses behind it. -/
theorem storageOperand_yield (hbound : r.Bound g.literals) (op : Instruction)
    (kind : Inner) {i : Nat} (hhead : (r.operand i).head? ≠ some (octet '=')) :
    (∀ p : Phrase .sum, r.operand i = p.yield → p.Leaves Leaf.Readable →
      p.Admissible g.symbols r.place → ∀ v, p.value g.symbols r.place = v →
      (p.Whole →
        (v.classify = .absolute → 0 ≤ v.number → v.number < 4096 →
          (exec (storageOperand op kind i (r.operand i)) r g).1 =
            ({ choice := ⟨0, v.number⟩, length := p.length g.symbols r.place },
              none)) ∧
        (v.classify = .relocatable → v.sectionId ≠ 0 →
          (∃ register d displacement, g.bases.Promises register d ∧
            d.Covers v.number v.sectionId displacement) →
          ∃ choice : BaseRegisters.Choice,
          choice.Best g.bases.Promises v.number v.sectionId ∧
            (exec (storageOperand op kind i (r.operand i)) r g).1 =
              ({ choice, address := some v.number
                 length := p.length g.symbols r.place }, none))) ∧
      (¬ p.Whole → ∃ problem,
        (exec (storageOperand op kind i (r.operand i)) r g).1.2 = some problem ∧
        problem.severity.isError = true)) ∧
    ∀ operand, (splitAddress (r.operand i)).2 ≠ [] →
      (exec (storageOperand op kind i (r.operand i)) r g).1 = (operand, none) →
      ∃ (q : Phrase .sum) (list : Bytes),
      r.operand i = q.yield ++ octet '(' :: (list ++ [octet ')']) ∧
        splitAddress (r.operand i) = (q.yield, Bytes.splitOn comma list) := by
  have hnone : boundLiteral? r g.literals i = none := by
    cases hliteral : boundLiteral? r g.literals i with
    | none => rfl
    | some literal => exact absurd (hbound.boundLiteral? hliteral).2.2.1 hhead
  refine ⟨fun p htext hreadable hadmissible v hv => ⟨fun hwhole => ?_,
    fun hnot => ?_⟩, fun operand => ?_⟩
  · exact storageOperand_whole hnone htext hreadable hadmissible hwhole hv
  · exact storageOperand_not_whole hnone htext hnot
  · exact parts_of_storageOperand hnone

/-- A place in a group is addressed, and a product that ends with a group is
refused. -/
theorem storageOperand_yield_group :
    ∃ (r r' : Record) (g : Generation) (op : Instruction),
    (r.Bound g.literals ∧ r.operand 1 = bytes "(A+6)" ∧
      ∃ choice : BaseRegisters.Choice, choice.Best g.bases.Promises 6 1 ∧
      (exec (storageOperand op .index 1 (r.operand 1)) r g).1 =
        ({ choice, address := some 6, length := 1 }, none)) ∧
    r'.Bound g.literals ∧ r'.operand 1 = bytes "2*(3)" ∧
      ∃ problem, (exec (storageOperand op .index 1 (r'.operand 1)) r' g).1.2 =
        some problem ∧
        problem.severity.isError = true := by
  have hany : (Statement.readAll (bytes
      "A CSECT\n BALR 12,0\n USING *,12\n LA 1,(A+6)\n LA 1,2*(3)\n END\n")
      |>.toOption.any fun statements =>
          let p := Program.ofStatements {} statements
          let g := ((Generation.new p).run (p.records.take 3)).2
          p.records[3]?.any fun r => p.records[4]?.any fun r' =>
            r.instruction?.any fun op =>
            (Expression.evaluate g.symbols r.place
              (bytes "(A+6)")).result.toOption.any fun result =>
            (Expression.evaluate g.symbols r'.place
              (bytes "2*(3)")).result.toOption.any fun result' =>
            (g.bases.promise? 12).any fun d =>
            decide (r.body = .instruction op [] ∧
                op.operandCount ≤ r.statement.operands.length ∧
              r'.body = .instruction op [] ∧
                op.operandCount ≤ r'.statement.operands.length ∧
              r.operand 1 = bytes "(A+6)" ∧ r'.operand 1 = bytes "2*(3)" ∧
              result.value.classify = .relocatable ∧ result.value.number = 6 ∧
              result.value.sectionId = 1 ∧ result.length = 1 ∧
              d.displacement? 6 1 = some 4)) = true := by
    decide +kernel
  have hbound : ∀ {r : Record} {op : Instruction} {literals : LiteralPool},
      r.body = .instruction op [] →
      op.operandCount ≤ r.statement.operands.length → r.Bound literals := by
    intro r op literals hbody hcounted
    refine ⟨fun _ _ h _ => ?_, fun _ _ h b hb => ?_⟩
    · obtain ⟨rfl, -⟩ := Record.Body.instruction.inj (hbody.symm.trans h)
      exact hcounted
    · obtain ⟨-, rfl⟩ := Record.Body.instruction.inj (hbody.symm.trans h)
      cases hb
  have hgrouped : splitAddress (bytes "(A+6)") = (bytes "(A+6)", []) := by
    decide +kernel
  have hproduct : splitAddress (bytes "2*(3)") ≠ (bytes "2*(3)", []) := by
    decide +kernel
  obtain ⟨statements, -, hcheck⟩ := exists_ok_of_any hany
  obtain ⟨r, -, hcheck⟩ := (Option.any_eq_true _ _).mp hcheck
  obtain ⟨r', -, hcheck⟩ := (Option.any_eq_true _ _).mp hcheck
  generalize ((Generation.new (Program.ofStatements {} statements)).run _).2 =
    g at hcheck
  obtain ⟨op, -, hcheck⟩ := (Option.any_eq_true _ _).mp hcheck
  obtain ⟨⟨v, n⟩, hresult, hcheck⟩ := exists_ok_of_any hcheck
  obtain ⟨result', hresult', hcheck⟩ := exists_ok_of_any hcheck
  obtain ⟨d, hd, hcheck⟩ := (Option.any_eq_true _ _).mp hcheck
  obtain ⟨hbody, hcounted, hbody', hcounted', htext, htext', hclass, hnumber,
      hsection, hlength, hcovers⟩ :=
    of_decide_eq_true hcheck
  simp only at hclass hnumber hsection hlength
  obtain ⟨p, hyield, hreadable, hdefined, habsolute, hv, hn⟩ :=
    exists_phrase_of_evaluate hresult
  obtain ⟨p', hyield', hreadable', hdefined', habsolute', -⟩ :=
    exists_phrase_of_evaluate hresult'
  have hwhole : p.Whole := splitAddress_eq_self_iff.mp (hyield ▸ hgrouped)
  have hnot : ¬ p'.Whole :=
    fun h => hproduct (hyield' ▸ splitAddress_eq_self_iff.mpr h)
  refine ⟨r, r', g, op, ⟨hbound hbody hcounted, htext, ?_⟩,
    hbound hbody' hcounted', htext', ?_⟩
  · have hhead : (r.operand 1).head? ≠ some (octet '=') := by rw [htext]; decide
    obtain ⟨choice, hbest, hexec⟩ :=
      (((storageOperand_yield (hbound hbody hcounted) op .index hhead).1 p
        (htext.trans hyield.symm) hreadable ⟨hdefined, habsolute⟩ v hv).1
          hwhole).2 hclass (by rw [hsection]; decide) ⟨12, d, 4, hd, by
            rw [hnumber, hsection]
            exact Domain.displacement?_eq_some_iff.mp hcovers⟩
    rw [hnumber, hsection] at hbest
    rw [hnumber, hn, hlength] at hexec
    exact ⟨choice, hbest, hexec⟩
  · have hhead : (r'.operand 1).head? ≠ some (octet '=') := by
      rw [htext']; decide
    exact ((storageOperand_yield (hbound hbody' hcounted') op .index hhead).1 p'
      (htext'.trans hyield'.symm) hreadable' ⟨hdefined', habsolute'⟩ _ rfl).2
        hnot

end Generate

end System370
