import System370.BaseRegisters
import System370.Expression
import System370.LiteralPool

/-!
# Numbers of lines

The tables of an assembly note the lines of what they hold, for the listings.
Nothing else depends on these numbers: changing all of them by a function
commutes with every operation on a table.  Two tables that become equal when
their lines are changed go on doing so, whatever is done to both of them.

* `SymbolTable.mapLines`, `LiteralPool.mapLines` and `BaseRegisters.mapLines`
  change the lines of a table;
* `SymbolTable.normalize_mapLines` and the lemmas before it say that operations
  commute with that.
-/

namespace System370

/-! ### Changing lines -/

def Section.mapLine (φ : Int → Int) (s : Section) : Section :=
  { s with line := φ s.line }

def Definition.mapLine (φ : Int → Int) (d : Definition) : Definition :=
  { d with line := φ d.line }

def Reference.mapLine (φ : Int → Int) (r : Reference) : Reference :=
  { r with line := φ r.line }

def ExternalName.mapLine (φ : Int → Int) (e : ExternalName) : ExternalName :=
  { e with line := φ e.line }

def EntryName.mapLine (φ : Int → Int) (e : EntryName) : EntryName :=
  { e with line := φ e.line }

def DuplicateDefinition.mapLine (φ : Int → Int) (e : DuplicateDefinition) :
    DuplicateDefinition :=
  { e with line := φ e.line }

/-- The lines of a symbol: those of its definition and of its uses. -/
def Symbol.mapLines (φ : Int → Int) (s : Symbol) : Symbol where
  name := s.name
  definition := s.definition.map (·.mapLine φ)
  references := s.references.map (·.mapLine φ)

/-- A table with other numbers of lines. -/
def SymbolTable.mapLines (φ : Int → Int) (t : SymbolTable) : SymbolTable where
  sections := t.sections.map (·.mapLine φ)
  dummies := t.dummies.map (·.mapLine φ)
  symbols := t.symbols.map (·.mapLines φ)
  externals := t.externals.map (·.mapLine φ)
  entries := t.entries.map (·.mapLine φ)
  current := t.current
  normalized := t.normalized

/-- The numbers of lines are all that is changed. -/
theorem SymbolTable.mapLines_id (t : SymbolTable) : t.mapLines id = t := by
  have hsymbol : ∀ s : Symbol, s.mapLines id = s := by
    intro s
    have hdefinition : s.definition.map (·.mapLine id) = s.definition := by
      cases s.definition <;> rfl
    have hreferences : s.references.map (·.mapLine id) = s.references :=
      List.map_id'' (fun _ => rfl) s.references
    simp only [Symbol.mapLines, hdefinition, hreferences]
  have hsections : t.sections.map (·.mapLine id) = t.sections :=
    List.map_id'' (fun _ => rfl) _
  have hdummies : t.dummies.map (·.mapLine id) = t.dummies :=
    List.map_id'' (fun _ => rfl) _
  have hsymbols : t.symbols.map (·.mapLines id) = t.symbols :=
    List.map_id'' hsymbol _
  have hexternals : t.externals.map (·.mapLine id) = t.externals :=
    List.map_id'' (fun _ => rfl) _
  have hentries : t.entries.map (·.mapLine id) = t.entries :=
    List.map_id'' (fun _ => rfl) _
  simp only [mapLines, hsections, hdummies, hsymbols, hexternals, hentries]

def Literal.mapLine (φ : Int → Int) (l : Literal) : Literal :=
  { l with line := φ l.line }

/-- A pool with other numbers of lines. -/
def LiteralPool.mapLines (φ : Int → Int) (p : LiteralPool) : LiteralPool :=
  { p with
    literals := p.literals.map (·.mapLine φ)
    inStep := p.inStep.map (fun _ => rfl) (fun _ => rfl) fun _ _ => rfl }

def Domain.mapLine (φ : Int → Int) (d : Domain) : Domain :=
  { d with line := φ d.line }

/-- Base registers with other numbers of lines. -/
def BaseRegisters.mapLines (φ : Int → Int) (b : BaseRegisters) :
    BaseRegisters :=
  ⟨b.domains.map (·.map (·.mapLine φ))⟩

namespace SymbolTable

variable (φ : Int → Int) (t : SymbolTable)

@[simp] theorem current_mapLines : (t.mapLines φ).current = t.current := rfl

/-! ### Sections -/

/-- A section is found by its number, whatever its lines. -/
theorem section?_mapLines (id : Int) :
    (t.mapLines φ).section? id = (t.section? id).map (·.mapLine φ) := by
  unfold section?
  split
  · exact List.getElem?_map
  · split
    · exact List.getElem?_map
    · rfl

theorem currentSection?_mapLines :
    (t.mapLines φ).currentSection? = t.currentSection?.map (·.mapLine φ) := by
  unfold currentSection?
  show t.current.bind (t.mapLines φ).section? = _
  cases t.current with
  | none => rfl
  | some id => exact t.section?_mapLines φ id

/-- Changing one element of a list commutes with changing all of them. -/
theorem map_modify {α β : Type} {f : α → α} {f' : β → β} {g : α → β}
    (hf : ∀ a, g (f a) = f' (g a)) (items : List α) (i : Nat) :
    (items.modify i f).map g = (items.map g).modify i f' := by
  refine List.ext_getElem? fun j => ?_
  simp only [List.getElem?_map, List.getElem?_modify]
  cases items[j]? with
  | none => rfl
  | some a =>
      by_cases hi : i = j
      · simp [hi, hf]
      · simp [hi]

/-- A change of a section that leaves its lines alone. -/
theorem modifySection_mapLines {f : Section → Section}
    (hf : ∀ s, (f s).mapLine φ = f (s.mapLine φ)) (id : Int) :
    (t.modifySection id f).mapLines φ =
      (t.mapLines φ).modifySection id f := by
  unfold modifySection
  split
  · simp only [mapLines, map_modify hf]
  · split
    · simp only [mapLines, map_modify hf]
    · rfl

theorem modifyCurrent_mapLines {f : Section → Section}
    (hf : ∀ s, (f s).mapLine φ = f (s.mapLine φ)) :
    (t.modifyCurrent f).mapLines φ = (t.mapLines φ).modifyCurrent f := by
  unfold modifyCurrent
  rw [current_mapLines]
  cases t.current with
  | none => rfl
  | some id => exact t.modifySection_mapLines φ hf id

/-- The location counter is no matter of lines. -/
theorem setLoc_mapLines (loc : Int64) :
    (t.setLoc loc).mapLines φ = (t.mapLines φ).setLoc loc :=
  t.modifyCurrent_mapLines φ (fun _ => rfl)

theorem freeze_mapLines : t.freeze.mapLines φ = (t.mapLines φ).freeze :=
  t.modifyCurrent_mapLines φ (fun _ => rfl)

/-- A literal is found by its section and its text. -/
theorem find?_mapLines {α : Type} {f : α → α} {p : α → Bool}
    (hp : ∀ a, p (f a) = p a) (items : List α) :
    (items.map f).find? p = (items.find? p).map f := by
  rw [List.find?_map]
  congr 2
  funext a
  exact hp a

/-- A section is found by its label and its kind. -/
theorem sectionOfLabel?_mapLines (label : Bytes) (dummy : Bool) :
    (t.mapLines φ).sectionOfLabel? label dummy =
      (t.sectionOfLabel? label dummy).map (·.mapLine φ) := by
  have hfind : ∀ sections : List Section,
      (sections.map (·.mapLine φ)).find? (·.label = label) =
      (sections.find? (·.label = label)).map (·.mapLine φ) :=
    find?_mapLines fun _ => rfl
  unfold sectionOfLabel?
  split
  · split
    · rfl
    · exact hfind _
  · show ((t.sections.map _).find? _).or ((t.dummies.map _).find? _) = _
    rw [hfind, hfind, Option.map_or]

/-! ### Symbols -/

/-- A symbol is found by its name. -/
theorem symbol?_mapLines (name : Bytes) :
    (t.mapLines φ).symbol? name = (t.symbol? name).map (·.mapLines φ) :=
  find?_mapLines (f := Symbol.mapLines φ) (fun _ => rfl) _

/-- What a name stands for, but for its line. -/
theorem definition?_mapLines (name : Bytes) :
    (t.mapLines φ).definition? name =
      (t.definition? name).map (·.mapLine φ) := by
  unfold definition?
  rw [symbol?_mapLines]
  cases t.symbol? name <;> rfl

/-- An external name is found by its name. -/
theorem external?_mapLines (name : Bytes) :
    (t.mapLines φ).external? name = (t.external? name).map (·.mapLine φ) :=
  find?_mapLines (f := ExternalName.mapLine φ) (fun _ => rfl) _

/-- A change of a symbol that corresponds to one of the symbol with other
lines. -/
theorem alterSymbol_mapLines {name : Bytes} {f g : Symbol → Symbol}
    (hf : ∀ s, (f s).mapLines φ = g (s.mapLines φ)) (symbols : List Symbol) :
    (alterSymbol name f symbols).map (·.mapLines φ) =
      alterSymbol name g (symbols.map (·.mapLines φ)) := by
  induction symbols with
  | nil => exact congrArg (fun s => [s]) (hf _)
  | cons s rest ih =>
      have hname : (s.mapLines φ).name = s.name := rfl
      simp only [alterSymbol, List.map_cons, hname]
      split
      · rw [List.map_cons, hf]
      · rw [List.map_cons, ih]

/-- A reference joins with its line. -/
theorem reference_mapLines (name : Bytes) (r : Reference) :
    (t.reference name r).mapLines φ =
      (t.mapLines φ).reference name (r.mapLine φ) := by
  unfold reference
  simp only [mapLines]
  congr 1
  exact alterSymbol_mapLines φ (fun s => by simp [Symbol.mapLines]) _

theorem references_mapLines (names : List Bytes) (r : Reference) :
    (names.foldl (fun t name => t.reference name r) t).mapLines φ =
      names.foldl (fun t name => t.reference name (r.mapLine φ))
        (t.mapLines φ) := by
  induction names generalizing t with
  | nil => rfl
  | cons name rest ih =>
      rw [List.foldl_cons, List.foldl_cons, ih, reference_mapLines]

/-- A symbol takes a new value and keeps its line. -/
theorem move_mapLines (name : Bytes) (value : Value) :
    (t.move name value).mapLines φ = (t.mapLines φ).move name value := by
  unfold move
  simp only [mapLines, List.map_map]
  congr 1
  refine List.map_congr_left fun s _ => ?_
  show Symbol.mapLines φ (if s.name = name then _ else s) =
    if s.name = name then _ else _
  split
  · simp only [Symbol.mapLines, Option.map_map]
    rfl
  · rfl

/-- An entry joins with its line. -/
theorem addEntry_mapLines (name : Bytes) (line : Int) :
    (t.addEntry name line).mapLines φ =
      (t.mapLines φ).addEntry name (φ line) := by
  have hany : (t.mapLines φ).entries.any (·.name = name) =
      t.entries.any (·.name = name) := by
    show (t.entries.map _).any _ = _
    rw [List.any_map]
    rfl
  unfold addEntry
  rw [hany]
  split
  · rfl
  · simp only [mapLines, List.map_append]
    rfl

/-- A change of an external name that leaves its lines alone. -/
theorem modifyExternal_mapLines {f : ExternalName → ExternalName}
    (hf : ∀ e, (f e).mapLine φ = f (e.mapLine φ)) (name : Bytes) :
    (t.modifyExternal name f).mapLines φ =
      (t.mapLines φ).modifyExternal name f := by
  unfold modifyExternal
  simp only [mapLines, List.map_map]
  congr 1
  refine List.map_congr_left fun e _ => ?_
  show ExternalName.mapLine φ (if e.name = name then f e else e) =
    if e.name = name then f (e.mapLine φ) else e.mapLine φ
  split
  · exact hf e
  · rfl

theorem referenceExternal_mapLines (name : Bytes) (line : Int) :
    (t.referenceExternal name line).mapLines φ =
      (t.mapLines φ).referenceExternal name (φ line) := by
  unfold referenceExternal
  rw [external?_mapLines, Option.isSome_map]
  split
  · rfl
  · simp only [mapLines, List.map_append]
    rfl

/-! ### Definitions -/

/-- An outcome with other numbers of lines. -/
def mapOutcome : Except DuplicateDefinition SymbolTable →
    Except DuplicateDefinition SymbolTable
  | .ok t => .ok (t.mapLines φ)
  | .error e => .error (e.mapLine φ)

/-- A definition joins or is refused; the refusal names the line of the first
one. -/
theorem define_mapLines (name : Bytes) (d : Definition) :
    (t.mapLines φ).define name (d.mapLine φ) =
      mapOutcome φ (t.define name d) := by
  unfold define
  rw [definition?_mapLines]
  cases t.definition? name with
  | some earlier => rfl
  | none =>
      simp only [Option.map_none, mapOutcome, mapLines]
      rw [alterSymbol_mapLines φ
        (g := fun s => { s with definition := some (d.mapLine φ) })
        (fun s => by simp [Symbol.mapLines])]

theorem startSection_mapLines (label : Bytes) (kind : SectionKind)
    (line : Int) :
    (t.mapLines φ).startSection label kind (φ line) =
      mapOutcome φ (t.startSection label kind line) := by
  have hsections : (t.mapLines φ).sections.length = t.sections.length :=
    List.length_map _
  have hdummies : (t.mapLines φ).dummies.length = t.dummies.length :=
    List.length_map _
  unfold startSection
  rw [hsections, hdummies, ← freeze_mapLines]
  generalize (if kind = .dummy then -(t.dummies.length + 1 : Int) else
    (t.sections.length + 1 : Int)) = id
  generalize t.freeze = u
  have hdefine : ∀ v v' : SymbolTable, v' = v.mapLines φ →
      (if label = [] then Except.ok v' else v'.define label
        ⟨Value.relocatable 0 id, 1, Definition.sectionKind, φ line⟩) =
      mapOutcome φ (if label = [] then Except.ok v else v.define label
        ⟨Value.relocatable 0 id, 1, Definition.sectionKind, line⟩) := by
    rintro v _ rfl
    split
    · rfl
    · exact v.define_mapLines φ label ⟨Value.relocatable 0 id, 1,
        Definition.sectionKind, line⟩
  apply hdefine
  split <;> simp only [mapLines, List.map_append] <;> rfl

theorem openSection_mapLines (label : Bytes) (kind : SectionKind) (line : Int) :
    (t.mapLines φ).openSection label kind (φ line) =
      mapOutcome φ (t.openSection label kind line) := by
  unfold openSection
  rw [sectionOfLabel?_mapLines]
  cases t.sectionOfLabel? label (kind = .dummy) with
  | some existing =>
      have hkind : (existing.mapLine φ).kind = existing.kind := rfl
      have hid : (existing.mapLine φ).id = existing.id := rfl
      simp only [Option.map_some, hkind, hid]
      split
      · rfl
      · have hresume :=
          t.freeze.modifySection_mapLines φ (f := Section.resume) (fun _ => rfl)
            existing.id
        rw [← freeze_mapLines, ← hresume]
        rfl
  | none =>
      simp only [Option.map_none, definition?_mapLines]
      by_cases hlabel : label = []
      · simp only [if_pos hlabel]
        exact t.startSection_mapLines φ label kind line
      · simp only [if_neg hlabel]
        cases t.definition? label with
        | some earlier => rfl
        | none => exact t.startSection_mapLines φ label kind line

/-- An external name, declared or refused. -/
theorem declareExternal_mapLines (name : Bytes) (weak : Bool) (line : Int) :
    (t.mapLines φ).declareExternal name weak (φ line) =
      mapOutcome φ (t.declareExternal name weak line) := by
  unfold declareExternal
  rw [definition?_mapLines]
  cases t.definition? name with
  | some d =>
      have hkind : (d.mapLine φ).kind = d.kind := rfl
      simp only [Option.map_some, external?_mapLines, Option.isSome_map, hkind]
      split
      · have hweak := t.modifyExternal_mapLines φ
          (f := fun e => { e with weak := e.weak && weak }) (fun _ => rfl) name
        rw [← hweak]
        rfl
      · rfl
  | none =>
      have hdefine := t.define_mapLines φ name ⟨Value.external name, 1,
        Definition.externalKind, line⟩
      simp only [Option.map_none]
      rw [show (⟨Value.external name, 1, Definition.externalKind,
        φ line⟩ : Definition) =
        Definition.mapLine φ ⟨Value.external name, 1, Definition.externalKind,
          line⟩ from rfl, hdefine]
      cases t.define name ⟨Value.external name, 1,
        Definition.externalKind, line⟩ with
      | error e => rfl
      | ok u =>
          show
            (if ((u.mapLines φ).external? name).isSome = true then _
              else _) =
            mapOutcome φ
              (if (u.external? name).isSome = true then _ else _)
          rw [external?_mapLines, Option.isSome_map]
          split
          · have hweak :=
              u.modifyExternal_mapLines φ (f := fun e => { e with weak })
                (fun _ => rfl) name
            rw [← hweak]
            rfl
          · simp only [mapOutcome, mapLines, List.map_append]
            rfl

/-! ### Placing sections -/

/-- Sections follow each other by their sizes. -/
theorem layOut_mapLine (base : Int64) (sections : List Section) :
    (layOut base sections).map (·.mapLine φ) =
      layOut base (sections.map (·.mapLine φ)) := by
  induction sections generalizing base with
  | nil => rfl
  | cons s rest ih =>
      simp only [layOut, List.map_cons, ih]
      rfl

theorem offset_mapLines (id : Int) :
    (t.mapLines φ).offset id = t.offset id := by
  unfold offset
  rw [section?_mapLines, Option.map_map]
  rfl

theorem relocate_mapLines (v : Value) :
    (t.mapLines φ).relocate v = t.relocate v := by
  simp only [relocate, offset_mapLines]

/-- External names are numbered behind the sections. -/
theorem numberExternals_mapLines (next : Int) (externals : List ExternalName) :
    (t.mapLines φ).numberExternals next (externals.map (·.mapLine φ)) =
      (t.numberExternals next externals).map (·.mapLine φ) := by
  induction externals generalizing next with
  | nil => rfl
  | cons e rest ih =>
      have hname : (e.mapLine φ).name = e.name := rfl
      have hid : ∀ s : Section, (s.mapLine φ).id = s.id := fun _ => rfl
      simp only [numberExternals, List.map_cons, hname,
        sectionOfLabel?_mapLines]
      cases t.sectionOfLabel? e.name false with
      | none =>
          simp only [Option.map_none, Option.filter_none, List.map_cons, ih]
          rfl
      | some s =>
          simp only [Option.map_some, Option.filter_some, hid]
          generalize (decide (0 < s.id) && decide (e.name ≠ [])) = isSection
          cases isSection with
          | true =>
              simp only [if_true, hid, List.map_cons, ih]
              rfl
          | false =>
              simp only [Bool.false_eq_true, if_false, List.map_cons, ih]
              rfl

/-- **Placing the sections commutes with changing lines.** -/
theorem normalize_mapLines :
    (t.mapLines φ).normalize = t.normalize.mapLines φ := by
  have hnumber : ∀ v v' : SymbolTable, v' = v.mapLines φ →
      ({ v' with
        externals := v'.numberExternals (v'.sections.length + 1) v'.externals
        symbols := v'.symbols.map fun s => { s with
          definition := s.definition.map fun d =>
            { d with value := v'.relocate d.value } } } :
        SymbolTable) =
      SymbolTable.mapLines φ { v with
        externals := v.numberExternals (v.sections.length + 1) v.externals
        symbols := v.symbols.map fun s => { s with
          definition := s.definition.map fun d =>
            { d with value := v.relocate d.value } } } := by
    rintro v _ rfl
    have hlength : (v.mapLines φ).sections.length = v.sections.length :=
      List.length_map _
    have hexternals : (v.mapLines φ).numberExternals (v.sections.length + 1)
        (v.mapLines φ).externals =
        (v.numberExternals (v.sections.length + 1) v.externals).map
          (·.mapLine φ) :=
      v.numberExternals_mapLines φ _ _
    simp only [hlength, hexternals, relocate_mapLines]
    simp only [mapLines, List.map_map, SymbolTable.mk.injEq, true_and, and_true]
    refine List.map_congr_left fun s _ => ?_
    simp only [Function.comp, Symbol.mapLines, Option.map_map]
    rfl
  unfold normalize
  show (if t.normalized = true then _ else _) = _
  split
  · rfl
  · rw [← freeze_mapLines]
    generalize t.freeze = u
    refine hnumber
      { u with normalized := true, sections := layOut 0 u.sections } _ ?_
    simp only [mapLines, layOut_mapLine]

/-- The size of a program is that of its sections. -/
theorem size_mapLines : (t.mapLines φ).size = t.size := by
  unfold size mapLines
  rw [List.getLast?_map]
  cases t.sections.getLast? <;> rfl

/-- The number of a target in the module. -/
theorem linkId_mapLines (target : Target) :
    (t.mapLines φ).linkId target = t.linkId target := by
  cases target with
  | origin id => rfl
  | external name sectionId =>
      simp only [linkId, external?_mapLines, Option.map_map]
      rfl

/-- Expressions do not read lines. -/
theorem evaluate_mapLines (place : Expression.Place) (text : Bytes) :
    Expression.evaluate (t.mapLines φ) place text =
      Expression.evaluate t place text := by
  have hlookup : ∀ (name : Bytes) (f : Definition →
      Traced Problem (List Expression.Result)),
      (∀ d, f (d.mapLine φ) = f d) →
      (Expression.lookup (t.mapLines φ) name).andThen
        f = (Expression.lookup t name).andThen f := by
    intro name f hf
    unfold Expression.lookup
    rw [definition?_mapLines]
    cases t.definition? name with
    | none => rfl
    | some d => simp only [Option.map_some, Traced.andThen, hf]
  have hrun : ∀ (steps : List Expression.Step) (stack : List Expression.Result),
      Expression.run (t.mapLines φ) place stack steps =
        Expression.run t place stack steps := by
    intro steps
    induction steps with
    | nil => exact fun _ => rfl
    | cons step rest ih =>
        intro stack
        have hstep : step.run (t.mapLines φ) place stack =
            step.run t place stack := by
          cases step with
          | symbol name => exact hlookup name _ fun _ => rfl
          | lengthOf name => exact hlookup name _ fun _ => rfl
          | _ => rfl
        simp only [Expression.run, hstep, ih]
  simp only [Expression.evaluate, hrun]

/-- An expression reads values and never lines. -/
theorem absolute_mapLines (place : Expression.Place) (text : Bytes) :
    Expression.absolute (t.mapLines φ) place text =
      Expression.absolute t place text := by
  simp only [Expression.absolute, evaluate_mapLines]

end SymbolTable

/-! ### Literals -/

namespace LiteralPool

variable (φ : Int → Int) (p : LiteralPool)

theorem waiting_mapLines (sectionId : Int) :
    (p.mapLines φ).waiting sectionId =
      (p.waiting sectionId).map (·.mapLine φ) := by
  rw [waiting_eq, waiting_eq]
  exact List.filter_map

theorem find?_mapLines (sectionId : Int) (text : Bytes) :
    (p.mapLines φ).find? sectionId text =
      (p.find? sectionId text).map (·.mapLine φ) := by
  rw [find?_eq, find?_eq, waiting_mapLines]
  exact SymbolTable.find?_mapLines (f := Literal.mapLine φ) (fun _ => rfl) _

/-- A literal joins with its line. -/
theorem add_mapLines {sectionId : Int} {text : Bytes}
    (descriptor : Option Constant.Descriptor) (line : Int)
    (h : p.find? sectionId text = none)
    (h' : (p.mapLines φ).find? sectionId text = none) :
    (p.mapLines φ).add sectionId text descriptor (φ line) h' =
      (p.add sectionId text descriptor line h).mapLines φ := by
  have hliterals :
      ((p.mapLines φ).add sectionId text descriptor (φ line) h').literals =
      ((p.add sectionId text descriptor line h).mapLines φ).literals :=
    (@List.map_append _ _ (Literal.mapLine φ) p.literals
      [p.fresh sectionId text descriptor line]).symm
  ext1
  · rfl
  · exact hliterals
  all_goals rfl

theorem intern_mapLines (sectionId : Int) (text : Bytes)
    (descriptor : Option Constant.Descriptor) (line : Int) :
    (p.mapLines φ).intern sectionId text descriptor (φ line) =
      (p.intern sectionId text descriptor line).map fun out =>
      (out.1.mapLines φ, out.2.mapLine φ) := by
  have hfound := p.find?_mapLines φ sectionId text
  have hlimit : (p.mapLines φ).limit = p.limit := rfl
  have hcount : (p.mapLines φ).count = p.count := rfl
  rcases Int.lt_or_le 0 sectionId with hpos | hle
  · cases hentry : p.find? sectionId text with
    | some l =>
        rw [hentry] at hfound
        rw [intern_of_some _ _ hpos hentry, intern_of_some _ _ hpos hfound]
        rfl
    | none =>
        rw [hentry] at hfound
        rw [intern_of_none _ _ hpos hentry, intern_of_none _ _ hpos hfound,
          hlimit, hcount]
        split
        · rfl
        · exact congrArg Except.ok
            (Prod.ext (add_mapLines φ p descriptor line hentry hfound) rfl)
  · rw [intern_outside _ _ hle, intern_outside _ _ hle]
    rfl

theorem placeFrom_mapLine (loc : Int64) (literals : List Literal) :
    placeFrom loc (literals.map (·.mapLine φ)) =
      ((placeFrom loc literals).1.map (·.mapLine φ),
        (placeFrom loc literals).2) := by
  induction literals generalizing loc with
  | nil => rfl
  | cons l rest ih =>
      have hlength : (l.mapLine φ).length = l.length := rfl
      simp only [List.map_cons, placeFrom, hlength, ih]
      rfl

/-- Literals are grouped by the boundaries of their constants. -/
theorem grouped_mapLine (literals : List Literal) :
    grouped (literals.map (·.mapLine φ)) =
      (grouped literals).map (·.mapLine φ) := by
  unfold grouped
  rw [List.map_flatMap]
  congr 1
  funext boundary
  exact List.filter_map

theorem replace_mapLine (placed : List Literal) (l : Literal) :
    replace (placed.map (·.mapLine φ)) (l.mapLine φ) =
      (replace placed l).mapLine φ := by
  unfold replace
  have hid : (l.mapLine φ).id = l.id := rfl
  rw [hid, SymbolTable.find?_mapLines (f := Literal.mapLine φ) (fun _ => rfl)]
  cases placed.find? _ <;> rfl

/-- The literals of a section that wait take their places. -/
theorem settle_mapLines (sectionId : Int) (loc : Int64) :
    (p.mapLines φ).settle sectionId loc =
      (p.settle sectionId loc).mapLines φ := by
  have hliterals : ((p.mapLines φ).settle sectionId loc).literals =
      ((p.settle sectionId loc).mapLines φ).literals := by
    show (p.literals.map (·.mapLine φ)).map (replace
        (placeFrom loc (grouped ((p.mapLines φ).waiting sectionId))).1) =
      (p.literals.map (replace
        (placeFrom loc (grouped (p.waiting sectionId))).1)).map (·.mapLine φ)
    rw [waiting_mapLines, grouped_mapLine, placeFrom_mapLine, List.map_map,
      List.map_map]
    exact List.map_congr_left fun l _ => replace_mapLine φ _ l
  ext1
  · rfl
  · exact hliterals
  all_goals rfl

/-- **Placing literals commutes with changing lines.** -/
theorem flush_mapLines (sectionId : Int) (loc : Int64) :
    (p.mapLines φ).flush sectionId loc =
      ⟨(p.flush sectionId loc).pool.mapLines φ,
        (p.flush sectionId loc).placed.map (·.mapLine φ),
        (p.flush sectionId loc).behind⟩ := by
  unfold flush
  simp only [waiting_mapLines, List.isEmpty_map, grouped_mapLine,
    placeFrom_mapLine, settle_mapLines]

theorem waitingSections_mapLines :
    (p.mapLines φ).waitingSections = p.waitingSections := rfl

theorem relocate_mapLines (base : Int → Int64) :
    (p.mapLines φ).relocate base = (p.relocate base).mapLines φ := by
  simp only [relocate, mapLines, List.map_map]
  rfl

theorem getElem?_mapLines (id : Nat) :
    (p.mapLines φ).literals[id]? = p.literals[id]?.map (·.mapLine φ) :=
  List.getElem?_map

end LiteralPool

/-! ### Base registers -/

namespace BaseRegisters

variable (φ : Int → Int) (b : BaseRegisters)

theorem domain?_mapLines (r : Register) :
    (b.mapLines φ).domain? r = (b.domain? r).map (·.mapLine φ) := by
  simp [domain?, mapLines]

/-- A domain opens with its line. -/
theorem use_mapLines (r : Register) (base : Int64) (sectionId : Int)
    (remaining : Int64) (line : Int) :
    (b.mapLines φ).use r base sectionId remaining (φ line) =
      (b.use r base sectionId remaining line).mapLines φ := by
  simp [use, mapLines, Domain.mapLine, Vector.map_set]

theorem drop_mapLines (r : Register) :
    (b.mapLines φ).drop r = (b.drop r).mapLines φ := by
  simp [drop, mapLines, Vector.map_set]

/-- The choice among domains never reads their lines. -/
theorem choose?_mapLines (location : Int64) (sectionId : Int) :
    (b.mapLines φ).choose? location sectionId =
      b.choose? location sectionId := by
  have hdisplacement : ∀ r : Register, ((b.mapLines φ).domain? r).bind
      (·.displacement? location sectionId) =
        (b.domain? r).bind (·.displacement? location sectionId) := by
    intro r
    rw [domain?_mapLines]
    cases b.domain? r <;> rfl
  simp only [choose?, hdisplacement]

/-- **Choosing a base register commutes with changing lines.** -/
theorem resolve_mapLines (location : Int64) (sectionId : Int) :
    (b.mapLines φ).resolve location sectionId =
      ((b.resolve location sectionId).1,
        (b.resolve location sectionId).2.mapLines φ) := by
  unfold resolve
  rw [choose?_mapLines]
  cases b.choose? location sectionId with
  | none => rfl
  | some c =>
      have hnote : ∀ d : Domain, (d.mapLine φ).note c.displacement =
          (d.note c.displacement).mapLine φ := by
        intro d
        unfold Domain.note
        show (if d.maxDisplacement < c.displacement then _ else _) = _
        split <;> rfl
      have hdomain :
          ((b.mapLines φ).domain? c.register).map (·.note c.displacement) =
          ((b.domain? c.register).map (·.note c.displacement)).map
            (·.mapLine φ) := by
        rw [domain?_mapLines, Option.map_map, Option.map_map]
        congr 1
        funext d
        exact hnote d
      show (some c,
        (⟨(b.mapLines φ).domains.set c.register _⟩ : BaseRegisters)) = _
      rw [hdomain]
      simp only [mapLines, Vector.map_set]

end BaseRegisters

/-! ### Two tables -/

/-- Two values that a function makes equal are both missing or both there. -/
theorem map_eq_map_cases {α β : Type} {f : α → β} {o o' : Option α}
    (h : o'.map f = o.map f) :
    (o = none ∧ o' = none) ∨ ∃ a a', o = some a ∧ o' = some a' ∧
      f a' = f a := by
  cases o with
  | none => exact Or.inl ⟨rfl, by simpa using h⟩
  | some a =>
      cases o' with
      | none => simp at h
      | some a' => exact Or.inr ⟨a, a', rfl, rfl, Option.some.inj h⟩

namespace SymbolTable

/-- Two tables that only differ in the numbers of lines, as far as `φ` tells
them apart. -/
def Alike (φ : Int → Int) (t t' : SymbolTable) : Prop :=
  t'.mapLines φ = t.mapLines φ

variable {φ : Int → Int} {t t' : SymbolTable}

/-- Sections found in both tables agree but for lines. -/
theorem Alike.section? (h : t.Alike φ t') (id : Int) :
    (t'.section? id).map (·.mapLine φ) = (t.section? id).map (·.mapLine φ) := by
  rw [← section?_mapLines, h, section?_mapLines]

theorem Alike.currentSection? (h : t.Alike φ t') :
    t'.currentSection?.map (·.mapLine φ) =
      t.currentSection?.map (·.mapLine φ) := by
  rw [← currentSection?_mapLines, h, currentSection?_mapLines]

theorem Alike.current (h : t.Alike φ t') : t'.current = t.current := by
  rw [← current_mapLines φ t', show t'.mapLines φ = t.mapLines φ from h,
    current_mapLines]

/-- An expression has one outcome in both tables. -/
theorem Alike.evaluate (h : t.Alike φ t') (place : Expression.Place)
    (text : Bytes) :
    Expression.evaluate t' place text = Expression.evaluate t place text := by
  rw [← evaluate_mapLines φ t', h, evaluate_mapLines]

theorem Alike.absolute (h : t.Alike φ t') (place : Expression.Place)
    (text : Bytes) :
    Expression.absolute t' place text = Expression.absolute t place text := by
  rw [← absolute_mapLines φ t', h, absolute_mapLines]

/-- Steps on two tables that both go well or both do not. -/
theorem Alike.outcomes {x x' : Except DuplicateDefinition SymbolTable}
    (h : mapOutcome φ x' = mapOutcome φ x) :
    (∃ e e', x = .error e ∧ x' = .error e') ∨
      ∃ u u', x = .ok u ∧ x' = .ok u' ∧ u.Alike φ u' := by
  cases x with
  | error e =>
      cases x' with
      | error e' => exact Or.inl ⟨e, e', rfl, rfl⟩
      | ok u' => simp [mapOutcome] at h
  | ok u =>
      cases x' with
      | error e' => simp [mapOutcome] at h
      | ok u' => exact Or.inr ⟨u, u', rfl, rfl, Except.ok.inj h⟩

/-- References to the same names join both tables. -/
theorem Alike.referenceAll (h : t.Alike φ t') (names : List Bytes)
    {r r' : Reference} (hr : r'.mapLine φ = r.mapLine φ) :
    (names.foldl (fun t name => t.reference name r) t).Alike φ
      (names.foldl (fun t name => t.reference name r') t') := by
  unfold Alike
  rw [references_mapLines, references_mapLines, h, hr]

theorem Alike.setLoc (h : t.Alike φ t') (loc : Int64) :
    (t.setLoc loc).Alike φ (t'.setLoc loc) := by
  unfold Alike
  rw [setLoc_mapLines, setLoc_mapLines, h]

/-- A change of sections that leaves lines alone. -/
theorem Alike.modifySection (h : t.Alike φ t') {f : Section → Section}
    (hf : ∀ s, (f s).mapLine φ = f (s.mapLine φ)) (id : Int) :
    (t.modifySection id f).Alike φ (t'.modifySection id f) := by
  unfold Alike
  rw [modifySection_mapLines φ t' hf, modifySection_mapLines φ t hf, h]

theorem Alike.move (h : t.Alike φ t') (name : Bytes) (value : Value) :
    (t.move name value).Alike φ (t'.move name value) := by
  unfold Alike
  rw [move_mapLines, move_mapLines, h]

theorem Alike.define (h : t.Alike φ t') (name : Bytes) {d d' : Definition}
    (hd : d'.mapLine φ = d.mapLine φ) :
    mapOutcome φ (t'.define name d') = mapOutcome φ (t.define name d) := by
  rw [← define_mapLines, ← define_mapLines, h, hd]

section Lines

variable {line line' : Int}

theorem Alike.addEntry (h : t.Alike φ t') (name : Bytes)
    (hline : φ line' = φ line) :
    (t.addEntry name line).Alike φ (t'.addEntry name line') := by
  unfold Alike
  rw [addEntry_mapLines, addEntry_mapLines, h, hline]

theorem Alike.referenceExternal (h : t.Alike φ t') (name : Bytes)
    (hline : φ line' = φ line) :
    (t.referenceExternal name line).Alike φ
      (t'.referenceExternal name line') := by
  unfold Alike
  rw [referenceExternal_mapLines, referenceExternal_mapLines, h, hline]

theorem Alike.openSection (h : t.Alike φ t') (label : Bytes)
    (kind : SectionKind) (hline : φ line' = φ line) :
    mapOutcome φ (t'.openSection label kind line') =
      mapOutcome φ (t.openSection label kind line) := by
  rw [← openSection_mapLines, ← openSection_mapLines, h, hline]

/-- An external name is declared in both tables or refused by both. -/
theorem Alike.declareExternal (h : t.Alike φ t') (name : Bytes)
    (weak : Bool) (hline : φ line' = φ line) :
    mapOutcome φ (t'.declareExternal name weak line') =
      mapOutcome φ (t.declareExternal name weak line) := by
  rw [← declareExternal_mapLines, ← declareExternal_mapLines, h, hline]

end Lines

/-- Tables that are alike are arranged alike. -/
theorem Alike.normalize (h : t.Alike φ t') :
    t.normalize.Alike φ t'.normalize := by
  unfold Alike
  rw [← normalize_mapLines, ← normalize_mapLines, h]

end SymbolTable

/-- Two pools that only differ in the numbers of lines, as far as `φ` tells them
apart. -/
def LiteralPool.Alike (φ : Int → Int) (p p' : LiteralPool) : Prop :=
  p'.mapLines φ = p.mapLines φ

namespace LiteralPool

variable {φ : Int → Int} {p p' : LiteralPool}

/-- A literal is refused for the same reason, or accepted under the same
number. -/
theorem Alike.intern (h : p.Alike φ p') (sectionId : Int)
    (text : Bytes) (descriptor : Option Constant.Descriptor)
    {line line' : Int} (hline : φ line' = φ line) :
    (∃ e, p.intern sectionId text descriptor line = .error e ∧
        p'.intern sectionId text descriptor line' = .error e) ∨
      ∃ q q' l l', p.intern sectionId text descriptor line = .ok (q, l) ∧
        p'.intern sectionId text descriptor line' = .ok (q', l') ∧
        q.Alike φ q' ∧ l'.id = l.id := by
  have hsame := p'.intern_mapLines φ sectionId text descriptor line'
  rw [show p'.mapLines φ = p.mapLines φ from h, hline, intern_mapLines] at hsame
  cases hx : p.intern sectionId text descriptor line with
  | error e =>
      cases hx' : p'.intern sectionId text descriptor line' with
      | error e' =>
          simp only [hx, hx', Except.map, Except.error.injEq] at hsame
          exact Or.inl ⟨e, rfl, by rw [hsame]⟩
      | ok out => simp [hx, hx', Except.map] at hsame
  | ok out =>
      cases hx' : p'.intern sectionId text descriptor line' with
      | error e => simp [hx, hx', Except.map] at hsame
      | ok out' =>
          simp only [hx, hx', Except.map, Except.ok.injEq,
            Prod.mk.injEq] at hsame
          exact Or.inr ⟨out.1, out'.1, out.2, out'.2, rfl, rfl, hsame.1.symm,
            (congrArg Literal.id hsame.2).symm⟩

/-- Flushing places the same literals at the same locations. -/
theorem Alike.flush (h : p.Alike φ p') (sectionId : Int) (loc : Int64) :
    (p.flush sectionId loc).pool.Alike φ (p'.flush sectionId loc).pool ∧
      (p'.flush sectionId loc).placed.map
        (·.id) = (p.flush sectionId loc).placed.map (·.id) ∧
      (p'.flush sectionId loc).behind = (p.flush sectionId loc).behind := by
  have hsame := p'.flush_mapLines φ sectionId loc
  rw [show p'.mapLines φ = p.mapLines φ from h, flush_mapLines,
    Flushed.mk.injEq] at hsame
  obtain ⟨hpool, hplaced, hbehind⟩ := hsame
  refine ⟨hpool.symm, ?_, hbehind.symm⟩
  have hids := congrArg (List.map (·.id)) hplaced
  rw [List.map_map, List.map_map] at hids
  exact hids.symm

theorem Alike.waitingSections (h : p.Alike φ p') :
    p'.waitingSections = p.waitingSections := by
  rw [← waitingSections_mapLines φ p', show p'.mapLines φ = p.mapLines φ from h,
    waitingSections_mapLines]

end LiteralPool

/-- Base registers that only differ in the numbers of lines, as far as `φ` tells
them apart. -/
def BaseRegisters.Alike (φ : Int → Int) (b b' : BaseRegisters) : Prop :=
  b'.mapLines φ = b.mapLines φ

end System370
