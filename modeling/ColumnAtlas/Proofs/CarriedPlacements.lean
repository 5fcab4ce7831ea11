import ColumnAtlas.Proofs.SoundPlacements

namespace ColumnAtlas

/-- What a program works with: the stored tables, its cells with all that was made of them, the
mappings under construction, and the open schemas. -/
structure Workshop where
  storage : Storage
  holdings : Holdings
  builders : List MappingBuilder
  schemas : List Schema

/-- What a program may do, in any order and as often as it likes. -/
inductive Work where
  | edit (e : Edit)
  | startBuilder (d : DatabaseId) (settings : Settings) (className : String)
  | addField (n : Nat) (f : FieldDecl)
  | finishBuilder (n : Nat)
  | act (act : Act)
  | buildGeneration (d : DatabaseId) (r : Registry) (version : Int)
  | openSchema (d : DatabaseId) (r : Registry) (version : Int)
  | changeSchema (n : Nat) (change : Change)

namespace Workshop

def empty : Workshop := ⟨.empty, .empty, [], []⟩

/-- One of the schemas with the tables and cells as they are now. -/
def workspace (w : Workshop) (schema : Schema) : Workspace := ⟨w.storage, w.holdings.cells, schema⟩

def withCells (w : Workshop) (cells : CellStore) : Workshop :=
  { w with holdings := { w.holdings with cells := cells } }

/-- An act brings along no mapping but those that are in cells. -/
def allows (w : Workshop) (act : Act) : Bool :=
  act.brought.all fun c => w.holdings.cells.cells.any fun known => known.mapping = c.mapping

/-- The state after some work. There is none if that fails, or if something it is about does not
exist. Mappings come from builders only. -/
def perform? (w : Workshop) : Work → Option Workshop
  | .edit e => some { w with storage := w.storage.edit e }
  | .startBuilder d settings className => do
    let b ← (MappingBuilder.start w.storage d settings className).toOption
    return { w with builders := w.builders ++ [b] }
  | .addField n f => do
    let b ← w.builders[n]?
    return { w with builders := w.builders.set n (b.attempt w.storage f) }
  | .finishBuilder n => do
    let b ← w.builders[n]?
    return w.withCells (w.holdings.cells.add ⟨b.mapping, true⟩).2
  | .act act => if w.allows act then some { w with holdings := w.holdings.step act } else none
  | .buildGeneration d r version => do
    let made ← (r.buildGeneration w.storage d version w.holdings.cells).toOption
    return { w with holdings := w.holdings.keep made }
  | .openSchema d r version => do
    let opened ← (Workspace.start w.storage w.holdings.cells d r version).toOption
    return { w.withCells opened.cells with schemas := w.schemas ++ [opened.schema] }
  | .changeSchema n change => do
    let schema ← w.schemas[n]?
    let changed := (w.workspace schema).apply change
    return { w.withCells changed.cells with
      storage := changed.storage
      schemas := w.schemas.set n changed.schema }

def step (w : Workshop) (work : Work) : Workshop := (w.perform? work).getD w

def run (w : Workshop) (works : List Work) : Workshop := works.foldl step w

/-- Every mapping of a program places fields soundly, wherever it is. -/
structure Sound (w : Workshop) : Prop where
  storage : w.storage.Sound
  holdings : w.holdings.Every Mapping.Sound
  builders : ∀ b ∈ w.builders, b.mapping.Sound

variable {w w' : Workshop} {work : Work}

namespace Sound

theorem empty : Workshop.empty.Sound where
  storage := .empty
  holdings := ⟨fun _ => Mapping.sound_empty "", nofun, nofun⟩
  builders := nofun

theorem every_withCells (h : w.Sound) {cells : CellStore} (hcells : cells.Every Mapping.Sound) :
    (w.withCells cells).holdings.Every Mapping.Sound :=
  ⟨hcells, h.holdings.frozen, h.holdings.taken⟩

theorem sound_brought (h : w.Sound) {act : Act} (ha : w.allows act) :
    ∀ c ∈ act.brought, c.mapping.Sound := by
  intro c hc
  obtain ⟨known, hknown, hsame⟩ := List.any_eq_true.mp (List.all_eq_true.mp ha c hc)
  obtain ⟨i, hi⟩ := List.mem_iff_getElem?.mp hknown
  have hread : w.holdings.cells.mapping ⟨i⟩ = known.mapping := by
    simp only [CellStore.mapping, CellStore.read, hi, Option.getD_some]
  rw [← of_decide_eq_true hsame, ← hread]
  exact h.holdings.cells ⟨i⟩

theorem perform (h : w.Sound) (hp : w.perform? work = some w') : w'.Sound := by
  cases work with
  | edit e =>
    obtain rfl := Option.some.inj hp
    exact ⟨h.storage.edit e, h.holdings, h.builders⟩
  | startBuilder d settings className =>
    obtain ⟨b, hb, hp⟩ := Option.bind_eq_some_iff.mp hp
    obtain rfl := Option.some.inj hp
    refine ⟨h.storage, h.holdings, fun b' hb' => ?_⟩
    rcases List.mem_append.mp hb' with hb' | hb'
    · exact h.builders b' hb'
    · obtain rfl := List.mem_singleton.mp hb'
      exact MappingBuilder.sound_start (toOption_eq_some_iff.mp hb)
  | addField n f =>
    obtain ⟨b, hb, hp⟩ := Option.bind_eq_some_iff.mp hp
    obtain rfl := Option.some.inj hp
    refine ⟨h.storage, h.holdings, fun b' hb' => ?_⟩
    rcases List.mem_or_eq_of_mem_set hb' with hb' | rfl
    · exact h.builders b' hb'
    · exact MappingBuilder.sound_attempt (h.builders b (List.mem_of_getElem? hb)) h.storage f
  | finishBuilder n =>
    obtain ⟨b, hb, hp⟩ := Option.bind_eq_some_iff.mp hp
    obtain rfl := Option.some.inj hp
    have hfinished := h.builders b (List.mem_of_getElem? hb)
    exact ⟨h.storage, h.every_withCells (h.holdings.cells.add hfinished), h.builders⟩
  | act act =>
    simp only [perform?] at hp
    split at hp
    next ha =>
      obtain rfl := Option.some.inj hp
      exact ⟨h.storage, h.holdings.step (h.sound_brought ha), h.builders⟩
    next => cases hp
  | buildGeneration d r version =>
    obtain ⟨made, hmade, hp⟩ := Option.bind_eq_some_iff.mp hp
    obtain rfl := Option.some.inj hp
    have hbuilt :=
      Registry.every_buildGeneration h.storage h.holdings.cells (toOption_eq_some_iff.mp hmade)
    exact ⟨h.storage, ⟨hbuilt, h.holdings.frozen, h.holdings.taken⟩, h.builders⟩
  | openSchema d r version =>
    obtain ⟨opened, hopened, hp⟩ := Option.bind_eq_some_iff.mp hp
    obtain rfl := Option.some.inj hp
    have hstart := Workspace.every_start h.storage h.holdings.cells (toOption_eq_some_iff.mp hopened)
    exact ⟨h.storage, h.every_withCells hstart, h.builders⟩
  | changeSchema n change =>
    obtain ⟨schema, _, hp⟩ := Option.bind_eq_some_iff.mp hp
    obtain rfl := Option.some.inj hp
    have hstored : (w.workspace schema).storage.Sound := h.storage
    have hchanged := Workspace.every_apply hstored h.holdings.cells change
    exact ⟨(Workspace.reworks_apply hstored change).storage.sound hstored,
      h.every_withCells hchanged, h.builders⟩

theorem step (h : w.Sound) (work : Work) : (w.step work).Sound := by
  unfold Workshop.step
  cases hp : w.perform? work with
  | none => exact h
  | some w' => exact h.perform hp

theorem run (h : w.Sound) (works : List Work) : (w.run works).Sound := by
  induction works generalizing w with
  | nil => exact h
  | cons work works ih => exact ih (h.step work)

end Sound

end Workshop

/-- Whatever builders add to mappings and wherever these are copied, every placement in them is sound.
So a path that goes on past a relationship has moved to the table of the class that is linked. -/
theorem placements_sound (works : List Work) : (Workshop.empty.run works).Sound ∧
    ∀ schema, ((Workshop.empty.run works).workspace schema).Guided := by
  have hsound := Workshop.Sound.empty.run works
  exact ⟨hsound, fun schema => Workspace.guided hsound.storage hsound.holdings.cells⟩

/-- A builder that does not verify types is told of a number where a drawer has a link. -/
def drawerWorks : List Work :=
  [.edit (.openDatabase "desk" "class_"), .edit (.createTable ⟨0⟩ "Drawer"),
    .edit (.addLink ⟨0⟩ "beneath" .object ⟨0⟩), .startBuilder ⟨0⟩ ⟨"class_", false⟩ "Drawer",
    .addField 0 (.column "beneath" .integer), .addField 0 (.reverse "above" "Drawer" "beneath"),
    .finishBuilder 0, .act (.copy ⟨0⟩ false)]

example : ((Workshop.empty.run drawerWorks).holdings.cells.mapping ⟨1⟩).fields.entries =
    [("above", .backlink 0 "Drawer" "beneath"), ("beneath", .column 0 .object (some "Drawer"))] := by
  decide +kernel

end ColumnAtlas
