import System370.Proofs.SourceLines

/-!
# The lines of a source

A source is cut into physical lines at its line feeds, and every physical line
belongs to exactly one statement.  A statement holds its lines without the
carriage returns at their ends, and bears the number of its first line
(`Statement.readAll_lines`).

The offset of a line is counted from the lines in front of it without the
carriage return that belongs to their ends, so it is short by one for each line
in front that ends with one (`Line.Located.start`).
-/

namespace System370

namespace Bytes

/-- No piece holds a separator. -/
theorem not_mem_splitOn {separator : UInt8} {text piece : Bytes}
    (h : piece ∈ splitOn separator text) :
    separator ∉ piece := by
  induction text generalizing piece with
  | nil =>
      rw [splitOn, List.mem_singleton] at h
      simp [h]
  | cons c rest ih =>
      unfold splitOn at h
      split at h
      · rcases List.mem_cons.mp h with rfl | h
        · simp
        · exact ih h
      · rename_i hne
        cases hrest : splitOn separator rest with
        | nil => exact absurd hrest (splitOn_ne_nil _ _)
        | cons first others =>
            rw [hrest] at h
            rcases List.mem_cons.mp h with rfl | h
            · have hfirst := ih (hrest ▸ List.mem_cons_self)
              exact fun hmem =>
                (List.mem_cons.mp hmem).elim (fun heq => hne heq.symm) hfirst
            · exact ih (hrest ▸ List.mem_cons_of_mem _ h)

/-- The pieces of a text are the text: a separator stands behind all of them but
the last. -/
theorem splitOn_eq (separator : UInt8) (text : Bytes) : ∃ front last,
    splitOn separator text = front ++ [last] ∧
      text = front.flatMap (· ++ [separator]) ++ last := by
  induction text with
  | nil => exact ⟨[], [], rfl, rfl⟩
  | cons c rest ih =>
      obtain ⟨front, last, hsplit, hrest⟩ := ih
      unfold splitOn
      split
      · rename_i heq
        refine ⟨[] :: front, last, by rw [hsplit, List.cons_append], ?_⟩
        rw [hrest, heq]
        rfl
      · rw [hsplit]
        cases front with
        | nil => exact ⟨[], c :: last, rfl, by rw [hrest]; rfl⟩
        | cons first others =>
            refine ⟨(c :: first) :: others, last, rfl, ?_⟩
            rw [hrest]
            rfl

end Bytes

namespace Line

/-- The octet at the end of a line. -/
def feed : UInt8 := 0x0A

/-- The octet that may stand in front of the end of a line. -/
def carriage : UInt8 := 0x0D

/-- The octets of lines, each with its end. -/
def ended (physical : List Bytes) : Bytes := physical.flatMap (· ++ [feed])

/-- The physical lines of a source: no end of a line is inside of one, and all
of them with their ends are the source.  Only the last may lack its end, if it
is not empty. -/
structure Cuts (source : Bytes) (physical : List Bytes) : Prop where
  unbroken : ∀ l ∈ physical, feed ∉ l
  whole : source = ended physical ∨ ∃ front last,
    physical = front ++ [last] ∧ last ≠ [] ∧
    source = ended front ++ last

/-- Lines behind lines. -/
theorem ended_append (physical others : List Bytes) :
    ended (physical ++ others) = ended physical ++ ended others :=
  List.flatMap_append

/-- A source is cut at its line ends. -/
theorem cuts_pieces (source : Bytes) : Cuts source (pieces source) := by
  obtain ⟨front, last, hsplit, hsource⟩ := Bytes.splitOn_eq feed source
  have hmem : ∀ l ∈ front ++ [last], feed ∉ l :=
    fun l hl => Bytes.not_mem_splitOn (hsplit ▸ hl)
  have hpieces : pieces source = if last = [] then front else
      front ++ [last] := by
    unfold pieces
    rw [show Bytes.splitOn 0x0A source = front ++ [last] from hsplit]
    simp only [List.getLast?_append, List.getLast?_singleton, Option.some_or,
      Option.some.injEq, List.dropLast_concat]
  rw [hpieces]
  split
  · rename_i hnil
    refine ⟨fun l hl => hmem l (List.mem_append_left _ hl), Or.inl ?_⟩
    rw [hsource, hnil, List.append_nil]
    rfl
  · rename_i hne
    exact ⟨hmem, Or.inr ⟨front, last, rfl, hne, hsource⟩⟩

/-- A source from one of its lines on: behind the line there is its end, if
anything. -/
theorem Cuts.source_eq {source : Bytes} {physical : List Bytes}
    (h : Cuts source physical)
    {k : Nat} {piece : Bytes} (hpiece : physical[k]? = some piece) : ∃ rest,
    source = ended (physical.take k) ++ (piece ++ rest) ∧ ∀ c ∈ rest.head?,
    c = feed := by
  have hparts : ∀ lines : List Bytes, lines[k]? = some piece →
      lines = lines.take k ++ piece :: lines.drop (k + 1) := by
    intro lines hlines
    obtain ⟨hlt, rfl⟩ := List.getElem?_eq_some_iff.mp hlines
    simp
  rcases h.whole with hsource | ⟨front, last, hphysical, -, hsource⟩
  · refine ⟨feed :: ended (physical.drop (k + 1)), ?_, by simp⟩
    rw [hsource]
    conv => lhs; rw [hparts physical hpiece]
    rw [ended_append]
    simp [ended]
  · have hk : k ≤ front.length := by
      have hlt := (List.getElem?_eq_some_iff.mp hpiece).1
      rw [hphysical, List.length_append, List.length_singleton] at hlt
      omega
    rcases Nat.lt_or_ge k front.length with hlt | hge
    · have hinner : front[k]? = some piece := by
        rw [hphysical, List.getElem?_append_left hlt] at hpiece
        exact hpiece
      have htake : physical.take k = front.take k := by
        rw [hphysical, List.take_append_of_le_length hk]
      refine ⟨feed :: (ended (front.drop (k + 1)) ++ last), ?_, by simp⟩
      rw [hsource, htake]
      conv => lhs; rw [hparts front hinner]
      rw [ended_append]
      simp [ended]
    · obtain rfl : k = front.length := by omega
      rw [hphysical, List.getElem?_concat_length] at hpiece
      obtain rfl := Option.some.inj hpiece
      refine ⟨[], ?_, by simp⟩
      rw [hsource, hphysical, List.take_left, List.append_nil]

/-- The octets of a source from one of its lines on begin with that line. -/
theorem Cuts.getElem?_source {source : Bytes} {physical : List Bytes}
    (h : Cuts source physical) {k : Nat} {piece : Bytes}
    (hpiece : physical[k]? = some piece) {j : Nat} (hj : j < piece.length) :
    source[(ended (physical.take k)).length + j]? = piece[j]? := by
  obtain ⟨rest, hsource, -⟩ := h.source_eq hpiece
  rw [hsource, List.getElem?_append_right (Nat.le_add_right _ _),
    Nat.add_sub_cancel_left, List.getElem?_append_left hj]

/-! ### Carriage returns -/

/-- A line without the carriage returns at its end. -/
def trimmed (piece : Bytes) : Bytes := Bytes.dropRightWhile (· = carriage) piece

/-- Whether a carriage return belongs to the end of a line. -/
def endsWithReturn (piece : Bytes) : Bool := piece.getLast? = some carriage

/-- A carriage return at the end of a line is no text. -/
theorem trimmed_concat_carriage (front : Bytes) :
    trimmed (front ++ [carriage]) = trimmed front := by
  simp [trimmed, Bytes.dropRightWhile]

theorem trimmed_prefix (piece : Bytes) : trimmed piece <+: piece := by
  unfold trimmed Bytes.dropRightWhile
  rw [← List.reverse_suffix, List.reverse_reverse]
  exact List.dropWhile_suffix _

/-- One carriage return is dropped from a line that ends with one. -/
theorem dropReturn_spec (piece : Bytes) :
    trimmed (dropReturn piece) = trimmed piece ∧
    (dropReturn piece).length +
      (if endsWithReturn piece then 1 else 0) = piece.length := by
  unfold dropReturn endsWithReturn
  by_cases h : piece.getLast? = some carriage
  · obtain ⟨front, rfl⟩ : ∃ front, piece = front ++ [carriage] :=
      ⟨piece.dropLast, (List.dropLast_append_getLast? _ h).symm⟩
    have hlast : (front ++ [carriage]).getLast? = some 0x0D := h
    rw [if_pos hlast, List.dropLast_concat, trimmed_concat_carriage]
    simp
  · have hlast : ¬ piece.getLast? = some 0x0D := h
    rw [if_neg hlast]
    simp [h]

/-! ### Lines and their places -/

/-- How many of the first lines of a source end with a carriage return. -/
def returns (source : Bytes) (n : Nat) : Nat :=
  ((pieces source).take n).countP endsWithReturn

/-- The offset in a source of the line behind its first ones. -/
def offset (source : Bytes) (n : Nat) : Nat :=
  (ended ((pieces source).take n)).length

/-- A line where it stands in a source. -/
structure Located (source : Bytes) (l : Line) : Prop where
  number : 0 < l.number
  raw : (pieces source)[l.number - 1]?.map trimmed = some l.raw
  start : l.start + returns source (l.number - 1) = offset source (l.number - 1)

/-- The line of a number begins behind those in front, carriage returns
apart. -/
theorem getElem?_enumerate (physical : List Bytes) (n start k : Nat) :
    ∃ start', (enumerate n start physical)[k]? =
        physical[k]?.map (fun piece => ⟨n + k, start', trimmed piece⟩) ∧
      start' + (physical.take k).countP endsWithReturn =
        start + (ended (physical.take k)).length := by
  induction physical generalizing n start k with
  | nil => exact ⟨start, by simp [enumerate], by simp [ended]⟩
  | cons piece rest ih =>
      obtain ⟨htrimmed, hlength⟩ := dropReturn_spec piece
      cases k with
      | zero =>
          refine ⟨start, ?_, by simp [ended]⟩
          simp only [enumerate, List.getElem?_cons_zero, Option.map_some,
            Nat.add_zero, Option.some.injEq, Line.mk.injEq, true_and]
          exact htrimmed
      | succ k =>
          obtain ⟨start', hline, hstart⟩ :=
            ih (n + 1) (start + (dropReturn piece).length + 1) k
          have hended : (ended ((piece :: rest).take (k + 1))).length =
              piece.length + 1 + (ended (rest.take k)).length := by
            simp [ended]
            omega
          have hcount : ((piece :: rest).take (k + 1)).countP endsWithReturn =
              (rest.take k).countP endsWithReturn +
                (if endsWithReturn piece then 1 else 0) := by
            rw [List.take_succ_cons, List.countP_cons]
          refine ⟨start', ?_, by omega⟩
          simp only [enumerate, List.getElem?_cons_succ]
          rw [hline]
          simp only [Nat.add_assoc, Nat.add_comm 1]

/-- The lines of a source, one behind the other. -/
structure Reads (source : Bytes) (lines : List Line) : Prop where
  raws : lines.map (·.raw) = (pieces source).map trimmed
  located : ∀ k l, lines[k]? = some l → l.number = k + 1 ∧ l.Located source

/-- The lines of a source are read as they stand. -/
theorem reads_enumerate (source : Bytes) :
    Reads source (enumerate 1 0 (pieces source)) := by
  constructor
  · apply List.ext_getElem?
    intro k
    obtain ⟨start, hline, -⟩ := getElem?_enumerate (pieces source) 1 0 k
    rw [List.getElem?_map, hline, List.getElem?_map, Option.map_map]
    rfl
  · intro k l hl
    obtain ⟨start, hline, hstart⟩ := getElem?_enumerate (pieces source) 1 0 k
    rw [hl] at hline
    obtain ⟨piece, hpiece, rfl⟩ := Option.map_eq_some_iff.mp hline.symm
    have hindex : 1 + k - 1 = k := by omega
    refine ⟨Nat.add_comm 1 k, ⟨by simp only; omega, ?_, ?_⟩⟩
    · simp only [hindex, hpiece, Option.map_some]
    · simp only [hindex]
      unfold returns offset
      omega

/-- **A source without a line that is too long can be read**, and no other. -/
theorem ofSource_eq_ok_iff {source : Bytes} {lines : List Line} :
    ofSource source = .ok lines ↔
    (∀ l ∈ pieces source, l.length ≤ maxLength) ∧
      lines = enumerate 1 0 (pieces source) := by
  have hlong : (pieces source).any (maxLength < ·.length) = false ↔
      ∀ l ∈ pieces source, l.length ≤ maxLength := by simp
  rw [ofSource_eq]
  split
  · rename_i h
    rw [← hlong, h]
    simp
  · rename_i h
    rw [← hlong, Bool.eq_false_iff.mpr h, Except.ok.injEq]
    simp [eq_comm]

/-! ### Groups of lines -/

/-- Every line is in one group. -/
theorem flatten_group (lines : List Line) : (group lines).flatten = lines := by
  induction lines with
  | nil => rfl
  | cons l rest ih =>
      rw [group_cons]
      split
      · cases hgroup : group rest with
        | nil =>
            rw [hgroup] at ih
            rw [← ih]
            rfl
        | cons g others =>
            rw [hgroup] at ih
            rw [← ih]
            rfl
      · rw [List.flatten_cons, ih]
        rfl

theorem ne_nil_of_mem_group {lines g : List Line} (h : g ∈ group lines) :
    g ≠ [] := by
  induction lines generalizing g with
  | nil => simp [group] at h
  | cons l rest ih =>
      rw [group_cons] at h
      split at h
      · cases hgroup : group rest with
        | nil =>
            rw [hgroup] at h
            simp_all
        | cons first others =>
            rw [hgroup] at h ih
            rcases List.mem_cons.mp h with rfl | h
            · simp
            · exact ih (List.mem_cons_of_mem _ h)
      · rcases List.mem_cons.mp h with rfl | h
        · simp
        · exact ih h

end Line

/-! ### Statements and their lines -/

namespace Statement

/-- What collecting the operand field leaves alone. -/
theorem withOperand_frame (s : Statement) (segments : List Segment) :
    (s.withOperand segments).line = s.line ∧
      (s.withOperand segments).lines = s.lines ∧
      (s.withOperand segments).position = s.position := by
  unfold withOperand
  split
  · exact ⟨rfl, rfl, rfl⟩
  · split
    · exact ⟨rfl, rfl, rfl⟩
    · simp only
      split
      · exact ⟨rfl, rfl, rfl⟩
      · unfold splitOperands
        split <;> exact ⟨rfl, rfl, rfl⟩

/-- A statement holds its lines, and bears the number and the place of the
first. -/
theorem ofLines_frame (first : Line) (rest : List Line) :
    (ofLines first rest).line = first.number ∧
      (ofLines first rest).lines = (first :: rest).map (·.raw) ∧
      (ofLines first rest).position =
        ⟨first.number, 1, first.start, first.raw.length, first.start⟩ := by
  unfold ofLines
  simp only
  split
  · exact ⟨rfl, rfl, rfl⟩
  · split
    · exact ⟨rfl, rfl, rfl⟩
    · exact withOperand_frame _ _

/-- A statement made of lines. -/
def Holds (s : Statement) (lines : List Line) : Prop :=
  ∃ first rest, lines = first :: rest ∧ s = ofLines first rest

/-- Groups of lines and the statements made of them. -/
theorem holds_ofSourceLines (lines : List Line) :
    List.Forall₂ (fun g s => Holds s g) (Line.group lines)
      (ofSourceLines lines) := by
  unfold ofSourceLines
  have hne : ∀ g ∈ Line.group lines, g ≠ [] :=
    fun g hg => Line.ne_nil_of_mem_group hg
  generalize Line.group lines = groups at hne
  induction groups with
  | nil => exact .nil
  | cons g others ih =>
      cases g with
      | nil => exact absurd rfl (hne [] List.mem_cons_self)
      | cons first rest =>
          exact .cons ⟨first, rest, rfl,
            rfl⟩ (ih fun g hg => hne g (List.mem_cons_of_mem _ hg))

/-- A statement holds the lines of its group. -/
theorem Holds.lines {s : Statement} {g : List Line} (h : s.Holds g) :
    s.lines = g.map (·.raw) := by
  obtain ⟨first, rest, rfl, rfl⟩ := h
  exact (ofLines_frame first rest).2.1

/-- The statements hold the lines of the source. -/
theorem flatMap_lines {groups : List (List Line)} {statements : List Statement}
    (h : List.Forall₂ (fun g s => Holds s g) groups statements) :
    statements.flatMap (·.lines) = groups.flatten.map (·.raw) := by
  induction h with
  | nil => rfl
  | cons hs _ ih =>
      rw [List.flatMap_cons, hs.lines, ih, List.flatten_cons, List.map_append]

/-- The lines of a statement of a source. -/
structure InSource (source : Bytes) (before : Nat) (s : Statement)
    (g : List Line) : Prop where
  holds : s.Holds g
  numbered : ∀ i l, g[i]? = some l → l.number = before + i + 1 ∧
    l.Located source

variable {source : Bytes} {statements : List Statement}

/-- **The statements of a source** hold its physical lines in their order, each
line once. -/
theorem readAll_lines (h : readAll source = .ok statements) :
    statements.flatMap (·.lines) = (Line.pieces source).map Line.trimmed ∧
      ∀ before s after, statements = before ++ s :: after →
        ∃ g, s.InSource source (before.flatMap (·.lines)).length g := by
  rw [readAll_eq] at h
  cases hlines : Line.ofSource source with
  | error e => simp [hlines, Except.map] at h
  | ok lines =>
      rw [hlines] at h
      obtain rfl := Except.ok.inj h
      obtain ⟨-, rfl⟩ := Line.ofSource_eq_ok_iff.mp hlines
      have hreads := Line.reads_enumerate source
      generalize Line.enumerate 1 0 (Line.pieces source) = lines at hreads
      have hholds := holds_ofSourceLines lines
      have hflatten := Line.flatten_group lines
      refine ⟨?_, fun before s after hsplit => ?_⟩
      · rw [flatMap_lines hholds, hflatten, hreads.raws]
      · rw [hsplit] at hholds
        have hfront := List.forall₂_take_append _ _ _ hholds
        have hback := List.forall₂_drop_append _ _ _ hholds
        have hgroups := List.take_append_drop before.length (Line.group lines)
        generalize (Line.group lines).take before.length =
          front at hfront hgroups
        generalize (Line.group lines).drop before.length = back at hback hgroups
        cases hback with
        | @cons g _ others _ hg _ =>
            have hlength : front.flatten.length =
                (before.flatMap (·.lines)).length := by
              rw [flatMap_lines hfront, List.length_map]
            have hindex : ∀ i l, g[i]? = some l →
                lines[(before.flatMap (·.lines)).length + i]? = some l :=
              fun i l hl => by
              have hlt := (List.getElem?_eq_some_iff.mp hl).1
              rw [← hflatten, ← hgroups, List.flatten_append, List.flatten_cons,
                ← hlength, List.getElem?_append_right (Nat.le_add_right _ _),
                Nat.add_sub_cancel_left, List.getElem?_append_left hlt, hl]
            exact ⟨g, hg, fun i l hl => hreads.located _ l (hindex i l hl)⟩

end Statement

end System370
