import System370.Proofs.TableInvariant
import Mathlib.Data.List.Nodup

/-!
# Calls on the symbol table

The statements of a source reach the table through seven calls, in any order and
with any names.  `Call` lists them, `Call.result` is what the table makes of
one.

An operation of the table gives a table or a refusal.  The table itself is
changed piece by piece: `Update` is a change that is made in place, so that what
came before a refusal would stay, and `Call.perform` makes the changes of a call
one after the other.  `perform_eq` says that both views agree.  A section is
added before its label is defined, and the definition could be refused: it is
not, for the label was looked up before.

`Consistent` is what holds of the table after any calls.
`consistent_performAll` adds what holds from one call to the next: definitions
stay, a name declared as external is no section afterwards, and a refused call
leaves the table as it was.
-/

namespace System370

/-- The definition that a section gives its label. -/
def Section.definition (s : Section) : Definition :=
  ⟨Value.relocatable 0 s.id, 1, Definition.sectionKind, s.line⟩

namespace SymbolTable

variable {t t' : SymbolTable}

/-! ### The calls -/

/-- What a statement asks of the table. -/
inductive Call where
  | openSection (label : Bytes) (kind : SectionKind) (line : Int)
  | setLoc (loc : Int64)
  | define (name : Bytes) (d : Definition)
  | reference (name : Bytes) (r : Reference)
  | declareExternal (name : Bytes) (weak : Bool) (line : Int)
  | referenceExternal (name : Bytes) (line : Int)
  | addEntry (name : Bytes) (line : Int)
  deriving DecidableEq, Repr

/-- The table after a call, unless the call is refused. -/
def Call.result (call : Call) (t : SymbolTable) :
    Except DuplicateDefinition SymbolTable :=
  match call with
  | .openSection label kind line => t.openSection label kind line
  | .setLoc loc => .ok (t.setLoc loc)
  | .define name d => t.define name d
  | .reference name r => .ok (t.reference name r)
  | .declareExternal name weak line => t.declareExternal name weak line
  | .referenceExternal name line => .ok (t.referenceExternal name line)
  | .addEntry name line => .ok (t.addEntry name line)

/-- The section that a label would start. -/
def newSection (t : SymbolTable) (label : Bytes) (kind : SectionKind)
    (line : Int) : Section where
  id := if kind = .dummy then -(t.dummies.length + 1 : Int) else
    (t.sections.length + 1 : Int)
  label := label
  kind := kind
  line := line

/-- The table with one more section. -/
def addSection (t : SymbolTable) (s : Section) : SymbolTable :=
  if s.kind = .dummy then { t with dummies := t.dummies ++ [s] }
  else { t with sections := t.sections ++ [s] }

/-- Taking the location counter into the length leaves the next number as it
is. -/
theorem newSection_freeze (t : SymbolTable) (label : Bytes) (kind : SectionKind)
    (line : Int) :
    t.freeze.newSection label kind line = t.newSection label kind line := by
  obtain ⟨hcontrol, hdummies⟩ := length_sections_modifyCurrent t Section.freeze
  simp only [newSection, freeze, hcontrol, hdummies]

/-- A new section: the open ones are frozen, it joins the table, and its label,
if it has one, is defined. -/
theorem startSection_eq (t : SymbolTable) (label : Bytes) (kind : SectionKind)
    (line : Int) :
    t.startSection label kind line =
      if label = [] then
        .ok { t.freeze.addSection (t.newSection label kind line) with
          current := some (t.newSection label kind line).id }
      else
        ({ t.freeze.addSection (t.newSection label kind line) with
          current :=
            some (t.newSection label kind line).id } : SymbolTable).define label
              (t.newSection label kind line).definition := rfl

/-- A section that joins defines no name by itself. -/
@[simp] theorem definition?_addSection (t : SymbolTable) (s : Section)
    (name : Bytes) :
    (t.addSection s).definition? name = t.definition? name := by
  unfold addSection
  split
  · rfl
  · rfl

@[simp] theorem definition?_freeze (t : SymbolTable) (name : Bytes) :
    t.freeze.definition? name = t.definition? name := by
  unfold freeze modifyCurrent
  split
  · rename_i id _
    obtain ⟨-, -, -, hsymbols, -⟩ := modifySection_frame t id Section.freeze
    simp only [definition?, symbol?, hsymbols]
  · rfl

/-- A name without a definition can be defined. -/
theorem define_of_none {name : Bytes} (d : Definition)
    (h : t.definition? name = none) :
    t.define name d = .ok { t with
      symbols := alterSymbol name (fun s => { s with definition := some d })
        t.symbols } := by
  rw [define, h]

/-- A change of the table in place.  It may be refused half-way; what it did
until then stays done. -/
abbrev Update := ExceptT DuplicateDefinition (StateM SymbolTable)

namespace Update

/-- The outcome of a change and the table it leaves. -/
def exec {α : Type} (x : Update α) (t : SymbolTable) :
    Except DuplicateDefinition α × SymbolTable := x.run.run t

variable {α β : Type}

/-- One update behind the other; an error ends them where the table stands by
then. -/
theorem exec_bind (x : Update α) (f : α → Update β) (t : SymbolTable) :
    exec (x >>= f) t = match exec x t with
      | (.ok v, t') => exec (f v) t'
      | (.error e, t') => (.error e, t') := by
  have h : exec (x >>= f) t = match (exec x t).1 with
      | .ok v => exec (f v) (exec x t).2
      | .error e => (.error e, (exec x t).2) := by
    show (ExceptT.bindCont f (exec x t).1 : StateM SymbolTable
      (Except DuplicateDefinition β))
      (exec x t).2 = _
    cases (exec x t).1 <;> rfl
  rw [h]
  rcases exec x t with ⟨_ | _, t'⟩ <;> rfl

@[simp] theorem exec_throw (e : DuplicateDefinition) (t : SymbolTable) :
    exec (throw e : Update α) t = (.error e, t) := rfl

@[simp] theorem exec_get (t : SymbolTable) :
    exec (get : Update SymbolTable) t = (.ok t, t) := rfl

@[simp] theorem exec_modify (f : SymbolTable → SymbolTable) (t : SymbolTable) :
    exec (modify f : Update Unit) t = (.ok (), f t) := rfl

/-- The table that an operation gives, or the one it was asked of and the
refusal. -/
def settle (t : SymbolTable) :
    Except DuplicateDefinition SymbolTable →
      Except DuplicateDefinition Unit × SymbolTable
  | .ok t' => (.ok (), t')
  | .error e => (.error e, t)

/-- A change that is made as a whole or not at all. -/
def atOnce (f : SymbolTable → Except DuplicateDefinition SymbolTable) :
    Update Unit := do
  match f (← get) with
  | .ok t => set t
  | .error e => throw e

/-- Adds a section under the next number of its kind, defines its label and
makes it current. -/
def startSection (label : Bytes) (kind : SectionKind) (line : Int) :
    Update Unit := do
  modify freeze
  let opened := (← get).newSection label kind line
  modify (·.addSection opened)
  if label ≠ [] then atOnce (·.define label opened.definition)
  modify fun t => { t with current := some opened.id }

/-- Starts or resumes a section. -/
def openSection (label : Bytes) (kind : SectionKind) (line : Int) :
    Update Unit := do
  let t ← get
  match t.sectionOfLabel? label (kind = .dummy) with
  | some existing =>
    if (existing.kind = .dummy) ≠ (kind = .dummy) then
      throw ⟨label, existing.line⟩
    else
      modify freeze
      modify (·.modifySection existing.id Section.resume)
      modify fun t => { t with current := some existing.id }
  | none =>
    match if label = [] then none else t.definition? label with
    | some earlier => throw ⟨label, earlier.line⟩
    | none => startSection label kind line

/-- Declares an external symbol: the definition first, then the external
name. -/
def declareExternal (name : Bytes) (weak : Bool) (line : Int) :
    Update Unit := do
  let t ← get
  match t.definition? name with
  | some d =>
    if (t.external? name).isSome ∧ d.kind = Definition.externalKind then
      modify (·.modifyExternal name fun e => { e with weak := e.weak && weak })
    else throw ⟨name, d.line⟩
  | none =>
    atOnce (·.define name ⟨Value.external name, 1,
      Definition.externalKind, line⟩)
    let t ← get
    if (t.external? name).isSome then
      modify (·.modifyExternal name fun e => { e with weak })
    else modify fun t =>
      { t with externals := t.externals ++ [{ name, weak, line }] }

/-- An update that is made at once, or refused and then leaves the table
alone. -/
theorem exec_atOnce (f : SymbolTable → Except DuplicateDefinition SymbolTable)
    (t : SymbolTable) :
    exec (atOnce f) t = settle t (f t) := by
  simp only [atOnce, exec_bind, exec_get]
  cases f t <;> rfl

/-- The label of a new section is defined in place without a refusal, if nothing
defined it before. -/
theorem exec_startSection {label : Bytes} (kind : SectionKind)
    (line : Int) (h : label ≠ [] → t.definition? label = none) :
    exec (startSection label kind line) t =
      settle t (t.startSection label kind line) := by
  rw [startSection_eq]
  simp only [startSection, exec_bind, exec_modify, exec_get, newSection_freeze]
  generalize hopened : t.newSection label kind line = opened
  by_cases hnil : label = []
  · simp [hnil, settle]
  · have hnone : (t.freeze.addSection opened).definition? label = none := by
      simp [h hnil]
    have hnone' :
        ({ t.freeze.addSection opened with current := some opened.id } :
        SymbolTable).definition? label = none := hnone
    simp [hnil, exec_bind, exec_atOnce, define_of_none _ hnone,
      define_of_none _ hnone', settle]

/-- **A section is opened at once**: the updates in place come to the same, and
a refusal leaves no trace of them. -/
theorem exec_openSection (label : Bytes) (kind : SectionKind) (line : Int)
    (t : SymbolTable) :
    exec (openSection label kind line) t =
      settle t (t.openSection label kind line) := by
  unfold openSection SymbolTable.openSection
  simp only [exec_bind, exec_get]
  cases t.sectionOfLabel? label (kind = .dummy) with
  | some existing =>
      simp only
      split
      · rfl
      · rfl
  | none =>
      simp only
      by_cases hnil : label = []
      · simp only [hnil, if_true]
        exact exec_startSection kind line fun h => absurd rfl h
      · simp only [hnil, if_false]
        cases hdef : t.definition? label with
        | some earlier => rfl
        | none => exact exec_startSection kind line fun _ => hdef

/-- So is an external name declared. -/
theorem exec_declareExternal (name : Bytes) (weak : Bool) (line : Int)
    (t : SymbolTable) :
    exec (declareExternal name weak line) t =
      settle t (t.declareExternal name weak line) := by
  unfold declareExternal SymbolTable.declareExternal
  simp only [exec_bind, exec_get]
  cases hdef : t.definition? name with
  | some d =>
      simp only
      split
      · rfl
      · rfl
  | none =>
      simp only [exec_bind, exec_atOnce, define_of_none _ hdef, settle]
      generalize ({ t with symbols := _ } : SymbolTable) = defined
      by_cases hknown : (defined.external? name).isSome
      · simp [bind, Except.bind, hknown]
      · simp [bind, Except.bind, hknown]

end Update

/-- The changes of a call in their order. -/
def Call.update : Call → Update Unit
  | .openSection label kind line => Update.openSection label kind line
  | .declareExternal name weak line => Update.declareExternal name weak line
  | call => Update.atOnce call.result

/-- The outcome of a call and the table it leaves. -/
def Call.perform (call : Call) (t : SymbolTable) :
    Except DuplicateDefinition Unit × SymbolTable :=
  call.update.exec t

/-- **A call changes the table as its operation says, or not at all.** -/
theorem perform_eq (call : Call) (t : SymbolTable) :
    call.perform t = Update.settle t (call.result t) := by
  cases call with
  | openSection label kind line =>
      exact Update.exec_openSection label kind line t
  | declareExternal name weak line =>
      exact Update.exec_declareExternal name weak line t
  | setLoc loc => exact Update.exec_atOnce (Call.setLoc loc).result t
  | define name d => exact Update.exec_atOnce (Call.define name d).result t
  | reference name r =>
      exact Update.exec_atOnce (Call.reference name r).result t
  | referenceExternal name line =>
      exact Update.exec_atOnce (Call.referenceExternal name line).result t
  | addEntry name line =>
      exact Update.exec_atOnce (Call.addEntry name line).result t

/-- The table after calls one after the other, the refused ones among them. -/
def performAll (calls : List Call) (t : SymbolTable) : SymbolTable :=
  calls.foldl (fun t call => (call.perform t).2) t

/-! ### What holds of the table -/

/-- What holds of the table after any calls. -/
structure Consistent (t : SymbolTable) : Prop where
  control : ∀ (i : Nat) s, t.sections[i]? = some s → s.id = i + 1
  dummy : ∀ (i : Nat) s, t.dummies[i]? = some s → s.id = -(i + 1 : Int)
  labels : (((t.sections ++ t.dummies).map (·.label)).filter (· ≠ [])).Nodup
  unnamed : (t.sections.map (·.label)).count [] ≤ 1
  defined : ∀ s ∈ t.sections ++ t.dummies, s.label ≠ [] → ∃ d,
    t.definition? s.label = some d ∧ d.kind = Definition.sectionKind ∧
      d.value = Value.relocatable 0 s.id
  bounded : ∀ s ∈ t.sections ++ t.dummies, s.loc ≤ s.length
  symbols : (t.symbols.map (·.name)).Nodup
  externals : (t.externals.map (·.name)).Nodup
  entries : (t.entries.map (·.name)).Nodup

/-- From a consistent table to a consistent one in which every definition
stays. -/
def Advances (t t' : SymbolTable) : Prop :=
  t.Consistent → t'.Consistent ∧
    ∀ name d, t.definition? name = some d → t'.definition? name = some d

theorem Advances.refl (t : SymbolTable) : Advances t t :=
  fun h => ⟨h, fun _ _ hd => hd⟩

theorem Advances.trans {t'' : SymbolTable} (h : Advances t t')
    (h' : Advances t' t'') :
    Advances t t'' := by
  intro hc
  obtain ⟨hc', hkeep⟩ := h hc
  obtain ⟨hc'', hkeep'⟩ := h' hc'
  exact ⟨hc'', fun name d hd => hkeep' name d (hkeep name d hd)⟩

/-- A section of a list in which one section was changed. -/
theorem exists_of_getElem?_modify {sections : List Section} {i j : Nat}
    {f : Section → Section} {s' : Section}
    (h : (sections.modify i f)[j]? = some s') :
    ∃ s, sections[j]? = some s ∧ (s' = s ∨ s' = f s) := by
  rw [List.getElem?_modify] at h
  obtain ⟨s, hs, rfl⟩ := Option.map_eq_some_iff.mp h
  refine ⟨s, hs, ?_⟩
  split
  · exact Or.inr rfl
  · exact Or.inl rfl

/-- The labels of a list in which one section was moved. -/
theorem map_label_modify (sections : List Section) (i : Nat)
    {f : Section → Section} (hf : Moves f) :
    (sections.modify i f).map (·.label) = sections.map (·.label) := by
  refine List.ext_getElem? fun j => ?_
  simp only [List.getElem?_map, List.getElem?_modify]
  cases sections[j]? with
  | none => rfl
  | some s =>
      by_cases hij : i = j
      · simp [hij, hf.label]
      · simp [hij]

/-- Each section of the changed table comes from one of the table before. -/
structure Moved (sections sections' : List Section) : Prop where
  origin : ∀ (i : Nat) s', sections'[i]? = some s' → ∃ s,
    sections[i]? = some s ∧
    s'.id = s.id ∧ s'.label = s.label ∧ (s.loc ≤ s.length → s'.loc ≤ s'.length)
  labels : sections'.map (·.label) = sections.map (·.label)

theorem Moved.refl (sections : List Section) : Moved sections sections :=
  ⟨fun _ s' h => ⟨s', h, rfl, rfl, fun h => h⟩, rfl⟩

/-- The location counter of one section moves. -/
theorem moved_modify (sections : List Section) (i : Nat) {f : Section → Section}
    (hf : Moves f) :
    Moved sections (sections.modify i f) := by
  refine ⟨fun j s' h => ?_, map_label_modify sections i hf⟩
  obtain ⟨s, hs, rfl | rfl⟩ := exists_of_getElem?_modify h
  · exact ⟨s', hs, rfl, rfl, fun h => h⟩
  · exact ⟨s, hs, hf.id s, hf.label s, hf.bounded s⟩

/-- A section is found by its number among those of its kind. -/
theorem moved_modifySection (t : SymbolTable) (id : Int) {f : Section → Section}
    (hf : Moves f) :
    Moved t.sections (t.modifySection id f).sections ∧
      Moved t.dummies (t.modifySection id f).dummies := by
  unfold modifySection
  split
  · exact ⟨moved_modify _ _ hf, Moved.refl _⟩
  · split
    · exact ⟨Moved.refl _, moved_modify _ _ hf⟩
    · exact ⟨Moved.refl _, Moved.refl _⟩

/-- The labels of a table whose location counter was taken into a length. -/
theorem map_label_freeze (t : SymbolTable) :
    t.freeze.sections.map (·.label) = t.sections.map (·.label) ∧
      t.freeze.dummies.map (·.label) = t.dummies.map (·.label) := by
  unfold freeze modifyCurrent
  split
  · obtain ⟨hsections, hdummies⟩ := moved_modifySection t _ moves_freeze
    exact ⟨hsections.labels, hdummies.labels⟩
  · exact ⟨rfl, rfl⟩

/-- Moving the location counter of a section. -/
theorem advances_modifySection (t : SymbolTable) (id : Int)
    {f : Section → Section} (hf : Moves f) :
    Advances t (t.modifySection id f) := by
  intro h
  obtain ⟨hsections, hdummies⟩ := moved_modifySection t id hf
  obtain ⟨-, -, hexternals, hsymbols, hentries⟩ := modifySection_frame t id f
  have hdefinition : ∀ name, (t.modifySection id f).definition? name =
      t.definition? name :=
    fun name => by simp only [definition?, symbol?, hsymbols]
  generalize t.modifySection id f = t' at *
  have horigin : ∀ s' ∈ t'.sections ++ t'.dummies,
      ∃ s ∈ t.sections ++ t.dummies,
      s'.id = s.id ∧ s'.label = s.label ∧
        (s.loc ≤ s.length → s'.loc ≤ s'.length) := by
    intro s' hs'
    rcases List.mem_append.mp hs' with hs' | hs'
    · obtain ⟨i, hi⟩ := List.getElem?_of_mem hs'
      obtain ⟨s, hs, hsame⟩ := hsections.origin i s' hi
      exact ⟨s, List.mem_append_left _ (List.mem_of_getElem? hs), hsame⟩
    · obtain ⟨i, hi⟩ := List.getElem?_of_mem hs'
      obtain ⟨s, hs, hsame⟩ := hdummies.origin i s' hi
      exact ⟨s, List.mem_append_right _ (List.mem_of_getElem? hs), hsame⟩
  refine ⟨⟨?_, ?_, ?_, ?_, ?_, ?_, hsymbols ▸ h.symbols,
    hexternals ▸ h.externals,
    hentries ▸ h.entries⟩, fun name d hd => (hdefinition name).trans hd⟩
  · intro i s' hs'
    obtain ⟨s, hs, hid, -⟩ := hsections.origin i s' hs'
    exact hid.trans (h.control i s hs)
  · intro i s' hs'
    obtain ⟨s, hs, hid, -⟩ := hdummies.origin i s' hs'
    exact hid.trans (h.dummy i s hs)
  · rw [List.map_append, hsections.labels, hdummies.labels, ← List.map_append]
    exact h.labels
  · rw [hsections.labels]
    exact h.unnamed
  · intro s' hs' hne
    obtain ⟨s, hs, hid, hlabel, -⟩ := horigin s' hs'
    obtain ⟨d, hd, hkind, hvalue⟩ := h.defined s hs (hlabel ▸ hne)
    exact ⟨d, by rw [hlabel, hdefinition, hd], hkind, hid ▸ hvalue⟩
  · intro s' hs'
    obtain ⟨s, hs, -, -, hbounded⟩ := horigin s' hs'
    exact hbounded (h.bounded s hs)

/-- The open section may move. -/
theorem advances_modifyCurrent (t : SymbolTable) {f : Section → Section}
    (hf : Moves f) :
    Advances t (t.modifyCurrent f) := by
  unfold modifyCurrent
  split
  · exact advances_modifySection t _ hf
  · exact Advances.refl t

/-- Changing the symbols of a table. -/
theorem advances_symbols {symbols : List Symbol}
    (hnames : (t.symbols.map (·.name)).Nodup → (symbols.map (·.name)).Nodup)
    (hkeep : ∀ name d, t.definition? name = some d →
      ({ t with symbols } : SymbolTable).definition? name = some d) :
    Advances t { t with symbols } := by
  intro h
  refine ⟨⟨h.control, h.dummy, h.labels, h.unnamed, fun s hs hne => ?_,
    h.bounded, hnames h.symbols, h.externals, h.entries⟩, hkeep⟩
  obtain ⟨d, hd, hkind, hvalue⟩ := h.defined s hs hne
  exact ⟨d, hkeep s.label d hd, hkind, hvalue⟩

/-- The names of the symbols after changing the symbol of a name. -/
theorem map_name_alterSymbol (name : Bytes) {f : Symbol → Symbol}
    (hf : ∀ s, (f s).name = s.name) (symbols : List Symbol) :
    (alterSymbol name f symbols).map (·.name) =
      if name ∈ symbols.map (·.name) then symbols.map (·.name)
      else symbols.map (·.name) ++ [name] := by
  induction symbols with
  | nil => simp [alterSymbol, hf]
  | cons s rest ih =>
      unfold alterSymbol
      by_cases hs : s.name = name
      · simp [hs, hf]
      · rw [if_neg hs, List.map_cons, ih]
        by_cases hmem : name ∈ rest.map (·.name)
        · simp [hmem]
        · simp [hmem, Ne.symm hs]

/-- No name gets a second symbol. -/
theorem nodup_alterSymbol {name : Bytes} {f : Symbol → Symbol}
    (hf : ∀ s, (f s).name = s.name) {symbols : List Symbol}
    (h : (symbols.map (·.name)).Nodup) :
    ((alterSymbol name f symbols).map (·.name)).Nodup := by
  rw [map_name_alterSymbol name hf]
  split
  · exact h
  · rename_i hnew
    exact List.nodup_append.mpr ⟨h, by simp, fun a ha b hb => by
      rw [List.mem_singleton.mp hb]
      rintro rfl
      exact hnew ha⟩

/-- References join, and definitions stay. -/
theorem advances_reference (t : SymbolTable) (name : Bytes) (r : Reference) :
    Advances t (t.reference name r) := by
  refine advances_symbols (fun h => nodup_alterSymbol ?_ h) fun other d hd =>
    (definition?_reference t name other r).trans hd
  exact fun _ => rfl

/-- A definition keeps the others. -/
theorem definition?_of_define {name : Bytes} {d : Definition}
    (h : t.define name d = .ok t') {other : Bytes}
    {e : Definition} (he : t.definition? other = some e) :
    t'.definition? other = some e := by
  obtain ⟨hnone, hdef⟩ := definition?_define h other
  have hne : other ≠ name := by
    rintro rfl
    simp [hnone] at he
  rw [hdef, if_neg hne, he]

/-- A name is defined once and keeps its definition. -/
theorem advances_define {name : Bytes} {d : Definition}
    (h : t.define name d = .ok t') :
    Advances t t' := by
  have hkeep := @definition?_of_define t t' name d h
  have hnone := (definition?_define h name).1
  rw [define_of_none d hnone] at h
  obtain rfl := Except.ok.inj h
  refine advances_symbols (fun h => nodup_alterSymbol ?_ h)
    fun other e he => hkeep he
  exact fun _ => rfl

/-! ### Starting and resuming sections -/

/-- Another section may be open. -/
theorem advances_setCurrent (t : SymbolTable) (id : Option Int) :
    Advances t { t with current := id } := fun h =>
  ⟨⟨h.control, h.dummy, h.labels, h.unnamed, h.defined, h.bounded, h.symbols,
    h.externals, h.entries⟩, fun _ _ hd => hd⟩

/-- A label that the table has no section of. -/
theorem label_ne_of_sectionOfLabel? {label : Bytes} {dummy : Bool}
    (h : t.sectionOfLabel? label dummy = none) :
    (label ≠ [] → label ∉ (t.sections ++ t.dummies).map (·.label)) ∧
      (label = [] → dummy = false → [] ∉ t.sections.map (·.label)) := by
  unfold sectionOfLabel? at h
  split at h
  · rename_i hnil
    refine ⟨fun hne => absurd hnil hne, fun _ hdummy hmem => ?_⟩
    obtain ⟨s, hs, hlabel⟩ := List.mem_map.mp hmem
    rw [hdummy, if_neg (by simp), List.find?_eq_none] at h
    exact h s hs (by simp [hnil, hlabel])
  · rename_i hne
    refine ⟨fun _ hmem => ?_, fun hnil => absurd hnil hne⟩
    obtain ⟨s, hs, hlabel⟩ := List.mem_map.mp hmem
    rw [Option.or_eq_none_iff, List.find?_eq_none, List.find?_eq_none] at h
    rcases List.mem_append.mp hs with hs | hs
    · exact h.1 s hs (by simp [hlabel])
    · exact h.2 s hs (by simp [hlabel])

/-- The sections of a table with one more. -/
theorem perm_addSection (t : SymbolTable) (opened : Section) :
    ((t.addSection opened).sections ++ (t.addSection opened).dummies).Perm
      (opened :: (t.sections ++ t.dummies)) := by
  unfold addSection
  split
  · simp only [← List.append_assoc]
    exact List.perm_append_singleton opened _
  · simp only [List.append_assoc, List.singleton_append]
    exact List.perm_middle

/-- What an added section leaves alone. -/
theorem addSection_frame (t : SymbolTable) (opened : Section) :
    (t.addSection opened).externals = t.externals ∧
      (t.addSection opened).entries = t.entries ∧
      (t.addSection opened).symbols = t.symbols := by
  unfold addSection
  split
  · exact ⟨rfl, rfl, rfl⟩
  · exact ⟨rfl, rfl, rfl⟩

/-- The positions and the unnamed sections of a table with one more section,
which has the next number of its kind. -/
theorem numbers_addSection {opened : Section} (h : t.Consistent)
    (hid : opened.id =
      if opened.kind = .dummy then -(t.dummies.length + 1 : Int)
      else (t.sections.length + 1 : Int))
    (hunnamed : opened.label = [] → opened.kind ≠ .dummy →
      [] ∉ t.sections.map (·.label)) :
    (∀ (i : Nat) s,
      (t.addSection opened).sections[i]? = some s → s.id = i + 1) ∧
      (∀ (i : Nat) s,
        (t.addSection opened).dummies[i]? = some s → s.id = -(i + 1 : Int)) ∧
      ((t.addSection opened).sections.map (·.label)).count [] ≤ 1 := by
  unfold addSection
  by_cases hkind : opened.kind = .dummy
  · rw [if_pos hkind] at hid ⊢
    exact ⟨h.control, numbers_append h.dummy hid, h.unnamed⟩
  · rw [if_neg hkind] at hid ⊢
    refine ⟨numbers_append h.control hid, h.dummy, ?_⟩
    by_cases hnil : opened.label = []
    · have hnone : (t.sections.map (·.label)).count [] = 0 :=
        List.count_eq_zero.mpr (hunnamed hnil hkind)
      simp [hnil, hnone]
    · simpa [List.count_singleton, hnil] using h.unnamed

/-- A section of a new label is consistent with the table once the label is
defined. -/
theorem consistent_addSection {opened : Section} (h : t.Consistent)
    (hid : opened.id =
      if opened.kind = .dummy then -(t.dummies.length + 1 : Int)
      else (t.sections.length + 1 : Int))
    (hbounded : opened.loc ≤ opened.length)
    (hlabel : opened.label ≠ [] →
      opened.label ∉ (t.sections ++ t.dummies).map (·.label))
    (hunnamed : opened.label = [] → opened.kind ≠ .dummy →
      [] ∉ t.sections.map (·.label)) {symbols : List Symbol}
    (hsymbols : (symbols.map (·.name)).Nodup)
    (ht' : t' =
      { t.addSection opened with symbols := symbols, current := some opened.id })
    (hkeep : ∀ name d, t.definition? name = some d →
      t'.definition? name = some d)
    (hdefined : opened.label ≠ [] →
      t'.definition? opened.label = some opened.definition) :
    t'.Consistent := by
  have hperm : (t'.sections ++ t'.dummies).Perm
      (opened :: (t.sections ++ t.dummies)) := by
    rw [ht']
    exact perm_addSection t opened
  have hmem : ∀ s, s ∈ t'.sections ++ t'.dummies → s = opened ∨
      s ∈ t.sections ++ t.dummies :=
    fun s hs => List.mem_cons.mp (hperm.mem_iff.mp hs)
  obtain ⟨hexternals, hentries, -⟩ := addSection_frame t opened
  obtain ⟨hcontrol, hdummy, hcount⟩ := numbers_addSection h hid hunnamed
  refine ⟨ht' ▸ hcontrol, ht' ▸ hdummy, ?_, ht' ▸ hcount, fun s hs hne => ?_,
    fun s hs => ?_, ht' ▸ hsymbols, ?_, ?_⟩
  · rw [((hperm.map (·.label)).filter _).nodup_iff]
    by_cases hnil : opened.label = []
    · simpa [hnil] using h.labels
    · rw [List.map_cons, List.filter_cons_of_pos (by simpa using hnil),
        List.nodup_cons]
      exact ⟨fun hin => hlabel hnil (List.mem_of_mem_filter hin), h.labels⟩
  · rcases hmem s hs with rfl | hs
    · exact ⟨s.definition, hdefined hne, rfl, rfl⟩
    · obtain ⟨d, hd, hkind, hvalue⟩ := h.defined s hs hne
      exact ⟨d, hkeep _ d hd, hkind, hvalue⟩
  · rcases hmem s hs with rfl | hs
    · exact hbounded
    · exact h.bounded s hs
  · rw [ht']
    exact hexternals ▸ h.externals
  · rw [ht']
    exact hentries ▸ h.entries

/-- Starting a section whose label the table has no section of. -/
theorem advances_startSection {label : Bytes} {kind : SectionKind} {line : Int}
    (hlabel : label ≠ [] → label ∉ (t.sections ++ t.dummies).map (·.label))
    (hunnamed : label = [] → kind ≠ .dummy → [] ∉ t.sections.map (·.label))
    (h : t.startSection label kind line = .ok t') : Advances t t' := by
  refine (advances_modifyCurrent t moves_freeze).trans fun hc => ?_
  rw [startSection_eq, ← newSection_freeze] at h
  obtain ⟨hsections, hdummies⟩ := map_label_freeze t
  rw [List.map_append, ← hsections, ← hdummies, ← List.map_append] at hlabel
  rw [← hsections] at hunnamed
  change t.freeze.Consistent at hc
  change _ ∧ ∀ name d, t.freeze.definition? name = some d → _
  generalize t.freeze = u at *
  have hopened : (u.newSection label kind line).label = label ∧
      (u.newSection label kind line).kind = kind := ⟨rfl, rfl⟩
  generalize hsection : u.newSection label kind line = opened at *
  obtain ⟨rfl, rfl⟩ := hopened
  have hid : opened.id = if opened.kind = .dummy then
      -(u.dummies.length + 1 : Int)
      else (u.sections.length + 1 : Int) := hsection ▸ rfl
  have hbounded : opened.loc ≤ opened.length := by
    rw [← hsection]
    exact Int64.le_refl 0
  split at h
  · rename_i hnil
    obtain rfl := Except.ok.inj h
    have hkeep : ∀ name d, u.definition? name = some d →
        (u.addSection opened).definition? name = some d := fun name d hd =>
      (definition?_addSection u opened name).trans hd
    have hsymbols : ((u.addSection opened).symbols.map (·.name)).Nodup :=
      (addSection_frame u opened).2.2 ▸ hc.symbols
    exact ⟨consistent_addSection hc hid hbounded hlabel hunnamed
      hsymbols rfl hkeep
      fun hne => absurd hnil hne, hkeep⟩
  · have hkeep : ∀ name d, u.definition? name = some d →
        t'.definition? name = some d :=
      fun name d hd => definition?_of_define h
        ((definition?_addSection u opened name).trans hd)
    obtain ⟨hnone, hdefined⟩ := definition?_define h opened.label
    rw [define_of_none _ hnone] at h
    refine ⟨consistent_addSection hc hid hbounded hlabel hunnamed ?_
      (Except.ok.inj h).symm hkeep
      fun _ => hdefined.trans (if_pos rfl), hkeep⟩
    refine nodup_alterSymbol ?_ ((addSection_frame u opened).2.2 ▸ hc.symbols)
    exact fun _ => rfl

/-- Starting or resuming a section. -/
theorem advances_openSection {label : Bytes} {kind : SectionKind} {line : Int}
    (h : t.openSection label kind line = .ok t') : Advances t t' := by
  unfold openSection at h
  split at h
  · rename_i existing _
    split at h
    · simp at h
    · obtain rfl := Except.ok.inj h
      exact (advances_modifyCurrent t moves_freeze).trans
        ((advances_modifySection _ existing.id moves_resume).trans
          (advances_setCurrent _ _))
  · rename_i hnone
    obtain ⟨hlabel, hunnamed⟩ := label_ne_of_sectionOfLabel? hnone
    split at h
    · simp at h
    · exact advances_startSection hlabel
        (fun hnil hkind => hunnamed hnil (decide_eq_false hkind)) h

/-! ### External names and names for other assemblies -/

/-- Changing the external names. -/
theorem advances_externals {externals : List ExternalName}
    (hnames : (t.externals.map (·.name)).Nodup →
      (externals.map (·.name)).Nodup) :
    Advances t { t with externals } := fun h =>
  ⟨⟨h.control, h.dummy, h.labels, h.unnamed, h.defined, h.bounded, h.symbols,
    hnames h.externals, h.entries⟩, fun _ _ hd => hd⟩

/-- An external name may change in everything but its name. -/
theorem advances_modifyExternal (t : SymbolTable) (name : Bytes)
    {f : ExternalName → ExternalName} (hf : ∀ e, (f e).name = e.name) :
    Advances t (t.modifyExternal name f) := by
  refine advances_externals fun h => ?_
  have hnames := map_name_modifyExternal t name hf
  rw [modifyExternal] at hnames
  rwa [hnames]

/-- An external name joins if there is none of that name. -/
theorem advances_addExternal {e : ExternalName}
    (hnew : (t.external? e.name).isSome = false) :
    Advances t { t with externals := t.externals ++ [e] } := by
  refine advances_externals fun h => ?_
  rw [List.map_append, List.map_singleton, List.nodup_append]
  refine ⟨h, by simp, fun a ha b hb => ?_⟩
  rw [List.mem_singleton.mp hb]
  rintro rfl
  rw [← external?_isSome_iff, hnew] at ha
  simp at ha

/-- References of external names join. -/
theorem advances_referenceExternal (t : SymbolTable) (name : Bytes)
    (line : Int) :
    Advances t (t.referenceExternal name line) := by
  unfold referenceExternal
  split
  · exact Advances.refl t
  · rename_i hnew
    exact advances_addExternal (Bool.eq_false_iff.mpr hnew)

/-- The outcome of an operation after another one. -/
theorem ok_of_bind {x : Except DuplicateDefinition SymbolTable}
    {f : SymbolTable → Except DuplicateDefinition SymbolTable}
    (h : x >>= f = .ok t') :
    ∃ u, x = .ok u ∧ f u = .ok t' := by
  cases x with
  | error e => simp [bind, Except.bind] at h
  | ok u => exact ⟨u, rfl, h⟩

/-- A declaration joins the external names or changes one of them. -/
theorem advances_declareExternal {name : Bytes} {weak : Bool} {line : Int}
    (h : t.declareExternal name weak line = .ok t') : Advances t t' := by
  unfold declareExternal at h
  split at h
  · split at h
    · obtain rfl := Except.ok.inj h
      exact advances_modifyExternal t name fun _ => rfl
    · simp at h
  · obtain ⟨u, hu, h⟩ := ok_of_bind h
    refine (advances_define hu).trans ?_
    split at h
    · obtain rfl := Except.ok.inj h
      exact advances_modifyExternal u name fun _ => rfl
    · obtain rfl := Except.ok.inj h
      exact advances_addExternal (Bool.eq_false_iff.mpr ‹_›)

/-- An entry joins unless it is there. -/
theorem advances_addEntry (t : SymbolTable) (name : Bytes) (line : Int) :
    Advances t (t.addEntry name line) := by
  unfold addEntry
  split
  · exact Advances.refl t
  · rename_i hnew
    intro h
    refine ⟨⟨h.control, h.dummy, h.labels, h.unnamed, h.defined, h.bounded,
      h.symbols, h.externals, ?_⟩, fun _ _ hd => hd⟩
    rw [List.map_append, List.map_singleton, List.nodup_append]
    refine ⟨h.entries, by simp, fun a ha b hb => ?_⟩
    rw [List.mem_singleton.mp hb]
    rintro rfl
    obtain ⟨e, he, rfl⟩ := List.mem_map.mp ha
    exact hnew (List.any_eq_true.mpr ⟨e, he, by simp⟩)

/-! ### Any calls -/

/-- **Every call** that is not refused keeps a table consistent and its
definitions in place. -/
theorem advances_result {call : Call} (h : call.result t = .ok t') :
    Advances t t' := by
  cases call with
  | openSection label kind line => exact advances_openSection h
  | setLoc loc =>
      obtain rfl := Except.ok.inj h
      exact advances_modifyCurrent t (moves_setLoc loc)
  | define name d => exact advances_define h
  | reference name r =>
      obtain rfl := Except.ok.inj h
      exact advances_reference t name r
  | declareExternal name weak line => exact advances_declareExternal h
  | referenceExternal name line =>
      obtain rfl := Except.ok.inj h
      exact advances_referenceExternal t name line
  | addEntry name line =>
      obtain rfl := Except.ok.inj h
      exact advances_addEntry t name line

/-- A call, refused or not, is a step from one consistent table to the next. -/
theorem advances_perform (call : Call) (t : SymbolTable) :
    Advances t (call.perform t).2 := by
  rw [perform_eq]
  cases h : call.result t with
  | ok t' => exact advances_result h
  | error e => exact Advances.refl t

/-- So do any calls, by induction on them. -/
theorem advances_performAll (calls : List Call) (t : SymbolTable) :
    Advances t (performAll calls t) := by
  induction calls generalizing t with
  | nil => exact Advances.refl t
  | cons call rest ih => exact (advances_perform call t).trans (ih _)

/-- The empty table is consistent. -/
theorem consistent_new : ({} : SymbolTable).Consistent := by
  constructor <;> simp

/-- Calls are performed one after the other. -/
theorem performAll_append (calls later : List Call) (t : SymbolTable) :
    performAll (calls ++ later) t = performAll later (performAll calls t) :=
  List.foldl_append

/-- A declared external symbol has a definition as such. -/
theorem definition?_declareExternal {name : Bytes} {weak : Bool} {line : Int}
    (h : t.declareExternal name weak line = .ok t') :
    ∃ d, t'.definition? name = some d ∧ d.kind = Definition.externalKind := by
  unfold declareExternal at h
  split at h
  · rename_i d hd
    split at h
    · rename_i hknown
      obtain rfl := Except.ok.inj h
      exact ⟨d, hd, hknown.2⟩
    · simp at h
  · obtain ⟨u, hu, h⟩ := ok_of_bind h
    have hdefined := (definition?_define hu name).2.trans (if_pos rfl)
    split at h
    · obtain rfl := Except.ok.inj h
      exact ⟨_, hdefined, rfl⟩
    · obtain rfl := Except.ok.inj h
      exact ⟨_, hdefined, rfl⟩

/-- An external name is found by its name. -/
theorem Consistent.external?_eq_some_iff (h : t.Consistent) (name : Bytes)
    (e : ExternalName) :
    t.external? name = some e ↔ e ∈ t.externals ∧ e.name = name := by
  have hnames := h.externals
  unfold external?
  constructor
  · intro hfind
    exact ⟨List.mem_of_find?_eq_some
      hfind, by simpa using List.find?_some hfind⟩
  · rintro ⟨hmem, rfl⟩
    generalize t.externals = externals at hnames hmem ⊢
    induction externals with
    | nil => simp at hmem
    | cons first rest ih =>
        rw [List.map_cons, List.nodup_cons] at hnames
        rcases List.mem_cons.mp hmem with rfl | hmem
        · simp
        · have hne : first.name ≠ e.name := fun heq =>
            hnames.1 (heq ▸ List.mem_map_of_mem hmem)
          rw [List.find?_cons_of_neg (by simpa using hne)]
          exact ih hnames.2 hmem

/-- A name with another meaning is not the label of a section. -/
theorem Consistent.label_ne (h : t.Consistent) {name : Bytes} {d : Definition}
    (hname : name ≠ []) (hd : t.definition? name = some d)
    (hkind : d.kind ≠ Definition.sectionKind) :
    ∀ s ∈ t.sections ++ t.dummies, s.label ≠ name := by
  rintro s hs rfl
  obtain ⟨d', hd', hsection, -⟩ := h.defined s hs hname
  rw [hd] at hd'
  exact hkind (Option.some.inj hd' ▸ hsection)

/-- **The table stays consistent under any calls.**  Definitions stay, a name
that was declared as external is never the label of a section, and a refused
call leaves the whole table as it was. -/
theorem consistent_performAll (calls later : List Call) :
    (performAll calls {}).Consistent ∧
    (∀ name e, (performAll calls {}).external? name = some e ↔
      e ∈ (performAll calls {}).externals ∧ e.name = name) ∧
    (∀ name d, (performAll calls {}).definition? name = some d →
      (performAll (calls ++ later) {}).definition? name = some d) ∧
    (∀ name weak line, name ≠ [] →
      ((Call.declareExternal name weak line).perform (performAll calls {})).1 =
        .ok () →
      ∀ s ∈ (performAll (calls ++ .declareExternal name weak line :: later)
        {}).sections ++
          (performAll (calls ++ .declareExternal name weak line :: later)
            {}).dummies, s.label ≠ name) ∧
    (∀ (call : Call) e, (call.perform (performAll calls {})).1 = .error e →
      (call.perform (performAll calls {})).2 = performAll calls {}) := by
  have hconsistent := (advances_performAll calls {} consistent_new).1
  simp only [performAll_append]
  generalize performAll calls {} = t at *
  refine ⟨hconsistent, hconsistent.external?_eq_some_iff,
    (advances_performAll later t hconsistent).2,
    fun name weak line hname hok => ?_, fun call e herror => ?_⟩
  · have hlater := advances_performAll later _
      (advances_perform (.declareExternal name weak line) t hconsistent).1
    rw [perform_eq] at hok
    cases hresult : (Call.declareExternal name weak line).result t with
    | error e => simp [hresult, Update.settle] at hok
    | ok u =>
        obtain ⟨d, hd, hkind⟩ := definition?_declareExternal hresult
        have hdeclared : ((Call.declareExternal name weak line).perform t).2 =
            u := by
          rw [perform_eq, hresult, Update.settle]
        refine hlater.1.label_ne hname (hlater.2 name d (hdeclared ▸ hd)) ?_
        rw [hkind]
        decide
  · rw [perform_eq] at herror ⊢
    cases hresult : call.result t with
    | error e' => rfl
    | ok u => simp [hresult, Update.settle] at herror

end SymbolTable

end System370
