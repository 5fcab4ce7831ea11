import ColumnAtlas.Proofs.Outcome
import ColumnAtlas.Proofs.ReworkedGeneration

namespace ColumnAtlas

/-- Who a generation belongs to: a caller that made it, or the cache that it is installed in. -/
inductive Keeper where
  | own (n : Nat)
  | cache (n : Nat)
  deriving DecidableEq

/-- The objects of a program: cells, generations and caches, and what was taken out of them. -/
structure Holdings where
  cells : CellStore
  generations : List Generation
  caches : List Cache
  frozen : List FrozenGeneration
  mappings : List Mapping

/-- What a program may do with its objects, in any order and as often as it likes. -/
inductive Act where
  | make (c : Cell)
  | copy (i : CellId) (mutable : Bool)
  | copyCell (target source : CellId)
  | takeMapping (i : CellId)
  | gather (version : Int) (classes : List (ClassId × Cell))
  | snapshot (source : Keeper) (mutable : Bool)
  | freeze (source : Keeper)
  | copyGeneration (n : Nat) (source : Keeper) (naming : TableNaming)
  | syncGeneration (n : Nat) (source : Keeper)
  | openCache
  | install (n : Nat) (source : Keeper)
  | installCells (n : Nat) (version : Int) (classes : List (ClassId × Cell))
  | updateCache (n : Nat) (source : Keeper) (naming : TableNaming)
  | syncCache (n : Nat) (source : Keeper)
  | closeCache (n : Nat)

inductive Item where
  | cell (i : CellId)
  | generation (k : Keeper)
  | frozen (n : Nat)
  | mapping (n : Nat)

/-- Everything that can be read through an object. For a generation this is the generation with the
contents of its cells. -/
inductive Contents where
  | cell (c : Cell)
  | generation (g : Generation) (cells : SortedMap ClassId Cell)
  | frozen (g : FrozenGeneration)
  | mapping (m : Mapping)

/-- The object is immutable, or a value that shares nothing with the cells. -/
def Contents.Fixed : Contents → Prop
  | .cell c => c.mutable = false
  | .generation g _ => g.mutable = false
  | .frozen _ => True
  | .mapping _ => True

namespace Act

def target? : Act → Option CellId
  | .copyCell target _ => some target
  | _ => none

/-- The generation that an act copies into or aligns with another one. -/
def keeper? : Act → Option Keeper
  | .copyGeneration n _ _ => some (.own n)
  | .syncGeneration n _ => some (.own n)
  | .updateCache n _ _ => some (.cache n)
  | .syncCache n _ => some (.cache n)
  | _ => none

/-- The act takes away the generation of a cache. -/
def Closes (act : Act) (item : Item) : Prop :=
  ∃ n, act = .closeCache n ∧ item = .generation (.cache n)

end Act

namespace Holdings

def empty : Holdings := ⟨.empty, [], [], [], []⟩

def generation? (w : Holdings) : Keeper → Option Generation
  | .own n => w.generations[n]?
  | .cache n => w.caches[n]?.bind Cache.installed

def keep (w : Holdings) (made : Generation × CellStore) : Holdings :=
  { w with cells := made.2, generations := w.generations ++ [made.1] }

def withGeneration (w : Holdings) (n : Nat) (made : Generation × CellStore) : Holdings :=
  { w with cells := made.2, generations := w.generations.set n made.1 }

def withCache (w : Holdings) (n : Nat) (made : Cache × CellStore) : Holdings :=
  { w with cells := made.2, caches := w.caches.set n made.1 }

/-- The objects after an act. There are none if it fails without an effect, or if an object it is
about does not exist. -/
def perform? (w : Holdings) : Act → Option Holdings
  | .make c => some { w with cells := (w.cells.add c).2 }
  | .copy i mutable => some { w with cells := (w.cells.add ((w.cells.read i).copy mutable)).2 }
  | .copyCell target source => do
    let cells ← (w.cells.copyFrom target source).toOption
    return { w with cells := cells }
  | .takeMapping i => some { w with mappings := w.mappings ++ [w.cells.mapping i] }
  | .gather version classes => some (w.keep (Generation.new version classes w.cells))
  | .snapshot source mutable => do
    let g ← w.generation? source
    return w.keep (g.snapshot mutable w.cells)
  | .freeze source => do
    let g ← w.generation? source
    return { w with frozen := w.frozen ++ [g.freeze w.cells] }
  | .copyGeneration n source naming => do
    let g ← w.generations[n]?
    let other ← w.generation? source
    return w.withGeneration n (g.copyFrom other naming w.cells).2
  | .syncGeneration n source => do
    let g ← w.generations[n]?
    let other ← w.generation? source
    let made ← (g.syncClasses other w.cells).toOption
    return w.withGeneration n made
  | .openCache => some { w with caches := w.caches ++ [.new] }
  | .install n source => do
    let c ← w.caches[n]?
    let g ← w.generation? source
    let made ← (c.setInitial g w.cells).toOption
    return w.withCache n made
  | .installCells n version classes => do
    let c ← w.caches[n]?
    let made ← (c.setInitialCells version classes w.cells).toOption
    return w.withCache n made
  | .updateCache n source naming => do
    let c ← w.caches[n]?
    let other ← w.generation? source
    return w.withCache n (c.update other naming w.cells).2
  | .syncCache n source => do
    let c ← w.caches[n]?
    let other ← w.generation? source
    let made ← (c.syncClasses other w.cells).toOption
    return w.withCache n made
  | .closeCache n => do
    let c ← w.caches[n]?
    return w.withCache n (c.close, w.cells)

/-- What each act comes to when it is performed, with the objects it is about and the outcome of the
call it makes. -/
inductive Performs (w : Holdings) : Act → Holdings → Prop
  | make (c : Cell) : Performs w (.make c) { w with cells := (w.cells.add c).2 }
  | copy (i : CellId) (mutable : Bool) :
      Performs w (.copy i mutable) { w with cells := (w.cells.add ((w.cells.read i).copy mutable)).2 }
  | copyCell {target source : CellId} {s' : CellStore}
      (hcopy : w.cells.copyFrom target source = .ok s') :
      Performs w (.copyCell target source) { w with cells := s' }
  | takeMapping (i : CellId) :
      Performs w (.takeMapping i) { w with mappings := w.mappings ++ [w.cells.mapping i] }
  | gather (version : Int) (classes : List (ClassId × Cell)) :
      Performs w (.gather version classes) (w.keep (Generation.new version classes w.cells))
  | snapshot {source : Keeper} {g : Generation} (mutable : Bool)
      (hsource : w.generation? source = some g) :
      Performs w (.snapshot source mutable) (w.keep (g.snapshot mutable w.cells))
  | freeze {source : Keeper} {g : Generation} (hsource : w.generation? source = some g) :
      Performs w (.freeze source) { w with frozen := w.frozen ++ [g.freeze w.cells] }
  | copyGeneration {n : Nat} {source : Keeper} {g other : Generation} (naming : TableNaming)
      (hg : w.generations[n]? = some g) (hsource : w.generation? source = some other) :
      Performs w (.copyGeneration n source naming)
        (w.withGeneration n (g.copyFrom other naming w.cells).2)
  | syncGeneration {n : Nat} {source : Keeper} {g other : Generation} {made : Generation × CellStore}
      (hg : w.generations[n]? = some g) (hsource : w.generation? source = some other)
      (hsync : g.syncClasses other w.cells = .ok made) :
      Performs w (.syncGeneration n source) (w.withGeneration n made)
  | openCache : Performs w .openCache { w with caches := w.caches ++ [.new] }
  | install {n : Nat} {source : Keeper} {c : Cache} {g : Generation} {made : Cache × CellStore}
      (hc : w.caches[n]? = some c) (hsource : w.generation? source = some g)
      (hinstall : c.setInitial g w.cells = .ok made) :
      Performs w (.install n source) (w.withCache n made)
  | installCells {n : Nat} {version : Int} {classes : List (ClassId × Cell)} {c : Cache}
      {made : Cache × CellStore} (hc : w.caches[n]? = some c)
      (hinstall : c.setInitialCells version classes w.cells = .ok made) :
      Performs w (.installCells n version classes) (w.withCache n made)
  | updateCache {n : Nat} {source : Keeper} {c : Cache} {other : Generation} (naming : TableNaming)
      (hc : w.caches[n]? = some c) (hsource : w.generation? source = some other) :
      Performs w (.updateCache n source naming) (w.withCache n (c.update other naming w.cells).2)
  | syncCache {n : Nat} {source : Keeper} {c : Cache} {other : Generation} {made : Cache × CellStore}
      (hc : w.caches[n]? = some c) (hsource : w.generation? source = some other)
      (hsync : c.syncClasses other w.cells = .ok made) :
      Performs w (.syncCache n source) (w.withCache n made)
  | closeCache {n : Nat} {c : Cache} (hc : w.caches[n]? = some c) :
      Performs w (.closeCache n) (w.withCache n (c.close, w.cells))

def step (w : Holdings) (act : Act) : Holdings := (w.perform? act).getD w

def run (w : Holdings) (acts : List Act) : Holdings := acts.foldl step w

def Holds (w : Holdings) (k : Keeper) (i : CellId) : Prop :=
  ∃ g id, w.generation? k = some g ∧ g.cell? id = some i

def contents? (w : Holdings) : Item → Option Contents
  | .cell i => if i.index < w.cells.size then some (.cell (w.cells.read i)) else none
  | .generation k => (w.generation? k).map fun g => .generation g (g.contents w.cells)
  | .frozen n => w.frozen[n]?.map .frozen
  | .mapping n => w.mappings[n]?.map .mapping

/-- An act is applied to a cell itself or to the generation that holds it; it is applied to a
generation itself or to a cell of it. -/
def Reaches (w : Holdings) (act : Act) : Item → Prop
  | .cell i => act.target? = some i ∨ ∃ k, act.keeper? = some k ∧ w.Holds k i
  | .generation k => act.keeper? = some k ∨ ∃ i, act.target? = some i ∧ w.Holds k i
  | .frozen _ => False
  | .mapping _ => False

/-- Some act of a run is applied to an object, as the objects are at that moment. -/
def Affected (w : Holdings) (acts : List Act) (item : Item) : Prop :=
  ∃ done act rest, acts = done ++ act :: rest ∧ (w.run done).Reaches act item

theorem performs_of_perform? {w w' : Holdings} {act : Act} (h : w.perform? act = some w') :
    w.Performs act w' := by
  cases act with
  | make | copy | takeMapping | gather | openCache =>
    obtain rfl := Option.some.inj h
    constructor
  | copyCell target source =>
    obtain ⟨s', hcopy, h⟩ := Option.bind_eq_some_iff.mp h
    obtain rfl := Option.some.inj h
    exact .copyCell (toOption_eq_some_iff.mp hcopy)
  | snapshot source mutable =>
    obtain ⟨g, hsource, h⟩ := Option.bind_eq_some_iff.mp h
    obtain rfl := Option.some.inj h
    exact .snapshot mutable hsource
  | freeze source =>
    obtain ⟨g, hsource, h⟩ := Option.bind_eq_some_iff.mp h
    obtain rfl := Option.some.inj h
    exact .freeze hsource
  | copyGeneration n source naming =>
    obtain ⟨g, hg, h⟩ := Option.bind_eq_some_iff.mp h
    obtain ⟨other, hsource, h⟩ := Option.bind_eq_some_iff.mp h
    obtain rfl := Option.some.inj h
    exact .copyGeneration naming hg hsource
  | syncGeneration n source =>
    obtain ⟨g, hg, h⟩ := Option.bind_eq_some_iff.mp h
    obtain ⟨other, hsource, h⟩ := Option.bind_eq_some_iff.mp h
    obtain ⟨made, hsync, h⟩ := Option.bind_eq_some_iff.mp h
    obtain rfl := Option.some.inj h
    exact .syncGeneration hg hsource (toOption_eq_some_iff.mp hsync)
  | install n source =>
    obtain ⟨c, hc, h⟩ := Option.bind_eq_some_iff.mp h
    obtain ⟨g, hsource, h⟩ := Option.bind_eq_some_iff.mp h
    obtain ⟨made, hinstall, h⟩ := Option.bind_eq_some_iff.mp h
    obtain rfl := Option.some.inj h
    exact .install hc hsource (toOption_eq_some_iff.mp hinstall)
  | installCells n version classes =>
    obtain ⟨c, hc, h⟩ := Option.bind_eq_some_iff.mp h
    obtain ⟨made, hinstall, h⟩ := Option.bind_eq_some_iff.mp h
    obtain rfl := Option.some.inj h
    exact .installCells hc (toOption_eq_some_iff.mp hinstall)
  | updateCache n source naming =>
    obtain ⟨c, hc, h⟩ := Option.bind_eq_some_iff.mp h
    obtain ⟨other, hsource, h⟩ := Option.bind_eq_some_iff.mp h
    obtain rfl := Option.some.inj h
    exact .updateCache naming hc hsource
  | syncCache n source =>
    obtain ⟨c, hc, h⟩ := Option.bind_eq_some_iff.mp h
    obtain ⟨other, hsource, h⟩ := Option.bind_eq_some_iff.mp h
    obtain ⟨made, hsync, h⟩ := Option.bind_eq_some_iff.mp h
    obtain rfl := Option.some.inj h
    exact .syncCache hc hsource (toOption_eq_some_iff.mp hsync)
  | closeCache n =>
    obtain ⟨c, hc, h⟩ := Option.bind_eq_some_iff.mp h
    obtain rfl := Option.some.inj h
    exact .closeCache hc

/-- The relation leaves no act out and adds none: it holds for the state that the function gives. -/
theorem perform?_eq_some_iff {w w' : Holdings} {act : Act} :
    w.perform? act = some w' ↔ w.Performs act w' := by
  refine ⟨performs_of_perform?, fun h => ?_⟩
  cases h with
  | make | copy | takeMapping | gather | openCache => rfl
  | copyCell hcopy => simp [perform?, hcopy, Except.toOption]
  | snapshot mutable hsource => simp [perform?, hsource]
  | freeze hsource => simp [perform?, hsource]
  | copyGeneration naming hg hsource => simp [perform?, hg, hsource]
  | syncGeneration hg hsource hsync => simp [perform?, hg, hsource, hsync, Except.toOption]
  | install hc hsource hinstall => simp [perform?, hc, hsource, hinstall, Except.toOption]
  | installCells hc hinstall => simp [perform?, hc, hinstall, Except.toOption]
  | updateCache naming hc hsource => simp [perform?, hc, hsource]
  | syncCache hc hsource hsync => simp [perform?, hc, hsource, hsync, Except.toOption]
  | closeCache hc => simp [perform?, hc]

section Generations

variable {w : Holdings} {n : Nat}

theorem generation?_congr {w' : Holdings} (hg : w'.generations = w.generations)
    (hc : w'.caches = w.caches) (k : Keeper) : w'.generation? k = w.generation? k := by
  cases k with
  | own n => rw [generation?, generation?, hg]
  | cache n => rw [generation?, generation?, hc]

theorem generation?_keep (w : Holdings) (made : Generation × CellStore) (k : Keeper) :
    (w.keep made).generation? k =
      if k = .own w.generations.length then some made.1 else w.generation? k := by
  cases k with
  | cache n => rfl
  | own n =>
    simp only [generation?, keep, Keeper.own.injEq, List.getElem?_append]
    by_cases hlt : n < w.generations.length
    · rw [if_pos hlt, if_neg (Nat.ne_of_lt hlt)]
    · by_cases heq : n = w.generations.length
      · simp [heq]
      · have hpos : n - w.generations.length ≠ 0 := by omega
        simp [hlt, heq, hpos]

theorem generation?_withGeneration {g : Generation} (hg : w.generations[n]? = some g)
    (made : Generation × CellStore) (k : Keeper) :
    (w.withGeneration n made).generation? k = if k = .own n then some made.1 else w.generation? k := by
  have hn : n < w.generations.length := (List.getElem?_eq_some_iff.mp hg).1
  cases k with
  | cache m => rfl
  | own m =>
    simp only [generation?, withGeneration, Keeper.own.injEq, List.getElem?_set, eq_comm (a := n)]
    split
    next => rfl
    next => rfl

theorem generation?_withCache {c : Cache} (hc : w.caches[n]? = some c) (made : Cache × CellStore)
    (k : Keeper) : (w.withCache n made).generation? k =
      if k = .cache n then made.1.installed else w.generation? k := by
  have hn : n < w.caches.length := (List.getElem?_eq_some_iff.mp hc).1
  cases k with
  | own m => rfl
  | cache m =>
    simp only [generation?, withCache, Keeper.cache.injEq, List.getElem?_set, eq_comm (a := n)]
    split
    next => rfl
    next => rfl

theorem generation?_openCache (w : Holdings) (k : Keeper) :
    ({ w with caches := w.caches ++ [.new] } : Holdings).generation? k = w.generation? k := by
  cases k with
  | own m => rfl
  | cache m =>
    simp only [generation?, List.getElem?_append]
    split
    next => rfl
    next hm =>
      have hnone : w.caches[m]? = none := List.getElem?_eq_none (by omega)
      rw [hnone, List.getElem?_singleton]
      split <;> rfl

end Generations

end Holdings

end ColumnAtlas
