import ColumnAtlas.Proofs.IsolatedCopies

namespace ColumnAtlas

namespace Act

/-- The act installs a generation in a cache. -/
def installs (n : Nat) : Act → Bool
  | .install m _ => m == n
  | .installCells m _ _ => m == n
  | _ => false

def closes (n : Nat) : Act → Bool
  | .closeCache m => m == n
  | _ => false

end Act

/-- The first class of a generation, in ascending order, that another one lacks. -/
def Generation.missing? (g other : Generation) : Option (ClassId × CellId) :=
  g.cells.entries.find? fun e => (other.cell? e.1).isNone

namespace Cache

structure Accepts (c : Cache) : Prop where
  setInitial : ∀ g s, ∃ installed, c.setInitial g s = .ok installed
  setInitialCells : ∀ version classes s, ∃ installed,
    c.setInitialCells version classes s = .ok installed

structure Refuses (c : Cache) : Prop where
  setInitial : ∀ g s, c.setInitial g s = .error (.state .alreadyInitialized)
  setInitialCells : ∀ version classes s,
    c.setInitialCells version classes s = .error (.state .alreadyInitialized)

/-- No use of the cache finds a generation in it. -/
structure Vacant (c : Cache) : Prop where
  generation : c.generation = .error (.state .notInitialized)
  cell? : ∀ id, c.cell? id = .error (.state .notInitialized)
  columnIndex? : ∀ s id field, c.columnIndex? s id field = .error (.state .notInitialized)
  version : c.version = .error (.state .notInitialized)
  freeze : ∀ s, c.freeze s = .error (.state .notInitialized)
  syncClasses : ∀ next s, c.syncClasses next s = .error (.state .notInitialized)
  update : ∀ next naming s, c.update next naming s = (.error (.state .notInitialized), c, s)

/-- Every use of the cache finds a mutable generation of mutable cells. An update of it fails only for
the first class that the other generation lacks. -/
structure Serves (c : Cache) (s : CellStore) (g : Generation) : Prop where
  mutable : g.mutable = true
  cells : ∀ id i, g.cell? id = some i → (s.read i).mutable = true
  generation : c.generation = .ok g
  cell? : ∀ id, c.cell? id = .ok (g.cell? id)
  columnIndex? : ∀ id field, c.columnIndex? s id field = .ok (g.columnIndex? s id field)
  version : c.version = .ok g.version
  freeze : c.freeze s = .ok (g.freeze s)
  syncClasses : ∀ next, ∃ synced, c.syncClasses next s = .ok synced
  update : ∀ next naming, (c.update next naming s).1 =
    match g.missing? next with
    | none => .ok ()
    | some (id, _) => .error (.state (.classSetMismatch (naming.className id)))

end Cache

namespace Holdings

/-- The acts of a run that are performed, in order. -/
def performed (w : Holdings) : List Act → List Act
  | [] => []
  | act :: acts => ((w.perform? act).map fun _ => act).toList ++ (w.step act).performed acts

/-- A generation was installed in a cache in the course of a run. -/
def hasInstalled (w : Holdings) (acts : List Act) (n : Nat) : Bool :=
  (w.performed acts).any (Act.installs n)

def hasClosed (w : Holdings) (acts : List Act) (n : Nat) : Bool :=
  (w.performed acts).any (Act.closes n)

/-- A cache by its number; one that is not open yet counts as a new one. -/
def cacheAt (w : Holdings) (n : Nat) : Cache := (w.caches[n]?).getD .new

/-- The acts that were performed account for a cache: whether it was closed, whether it has a
generation, which can change then, and that it got one at most once. -/
structure Chronicled (w : Holdings) (n : Nat) (done : List Act) : Prop where
  initialized : (w.cacheAt n).isInitialized = (done.any (Act.installs n) && !done.any (Act.closes n))
  closed : (w.cacheAt n).closed = done.any (Act.closes n)
  once : done.countP (Act.installs n) ≤ 1
  live : ∀ g, (w.cacheAt n).installed = some g → g.Live w.cells

/-- What an act that is performed does to a cache. -/
inductive Moves (w : Holdings) (act : Act) (n : Nat) (w' : Holdings) : Prop where
  | kept (hinstalls : act.installs n = false) (hcloses : act.closes n = false)
      (hkept : w'.cacheAt n = w.cacheAt n)
  | reworked {g g' : Generation} (hinstalls : act.installs n = false)
      (hcloses : act.closes n = false) (hg : (w.cacheAt n).installed = some g)
      (hg' : w'.cacheAt n = { w.cacheAt n with installed := some g' })
      (hlive : g.Live w.cells → g'.Live w'.cells)
  | installed {g : Generation} (hinstalls : act.installs n = true) (hcloses : act.closes n = false)
      (hnew : w.cacheAt n = .new) (hg : w'.cacheAt n = ⟨some g, false⟩) (hlive : g.Live w'.cells)
  | closed (hinstalls : act.installs n = false) (hcloses : act.closes n = true)
      (hclosed : w'.cacheAt n = (w.cacheAt n).close)

end Holdings

namespace Generation

variable {g other : Generation} {s : CellStore}

theorem Live.copyFrom (h : g.Live s) (other : Generation) (naming : TableNaming) :
    (g.copyFrom other naming s).2.1.Live (g.copyFrom other naming s).2.2 := by
  obtain ⟨_, hmutable, _⟩ := copyCells_frame other naming g.cells.entries s
  have hcells : ∀ id i, g.cell? id = some i →
      ((copyCells other naming g.cells.entries s).2.read i).mutable = true := fun id i hi => by
    rw [hmutable]
    exact h.cells id i hi
  rw [Generation.copyFrom, if_pos h.mutable]
  split
  next heq =>
    rw [heq] at hcells
    exact ⟨h.mutable, hcells, h.distinct⟩
  next heq =>
    rw [heq] at hcells
    exact ⟨h.mutable, hcells, h.distinct⟩

/-- Copying into mutable cells stops only at a class that the other generation lacks. -/
theorem copyCells_result (naming : TableNaming) {es : List (ClassId × CellId)}
    (hm : ∀ e ∈ es, (s.read e.2).mutable = true) :
    (copyCells other naming es s).1 =
      match es.find? fun e => (other.cell? e.1).isNone with
      | none => .ok ()
      | some (id, _) => .error (.state (.classSetMismatch (naming.className id))) := by
  induction es generalizing s with
  | nil => rfl
  | cons e es ih =>
    rw [copyCells, List.find?_cons]
    cases hsource : other.cell? e.1 with
    | none => rfl
    | some source =>
      obtain ⟨s', hs'⟩ := CellStore.copyFrom_exists (hm e List.mem_cons_self) source
      have hm' : ∀ e' ∈ es, (s'.read e'.2).mutable = true := fun e' he' => by
        rw [CellStore.mutable_copyFrom hs']
        exact hm e' (List.mem_cons_of_mem _ he')
      simp only [hs', Option.isNone_some]
      exact ih hm'

theorem Live.copyFrom_result (h : g.Live s) (other : Generation) (naming : TableNaming) :
    (g.copyFrom other naming s).1 =
      match g.missing? other with
      | none => .ok ()
      | some (id, _) => .error (.state (.classSetMismatch (naming.className id))) := by
  have hmutable : ∀ e ∈ g.cells.entries, (s.read e.2).mutable = true := fun e he =>
    h.cells e.1 e.2 (SortedMap.mem_entries_iff.mp he)
  have hresult : (copyCells other naming g.cells.entries s).1 = _ := copyCells_result naming hmutable
  rw [missing?, ← hresult, Generation.copyFrom, if_pos h.mutable]
  split
  next heq => rw [heq]
  next heq => rw [heq]

end Generation

namespace Cache

variable {c : Cache}

theorem isFresh_eq (c : Cache) : c.isFresh = (!c.isInitialized && !c.closed) := by
  rw [isFresh, isInitialized, Option.not_isSome]

theorem eq_new_of_isFresh (h : c.isFresh = true) : c = .new := by
  rw [isFresh, Bool.and_eq_true, Option.isNone_iff_eq_none, Bool.not_eq_true'] at h
  obtain ⟨installed, closed⟩ := c
  obtain ⟨rfl, rfl⟩ := h
  rfl

theorem install_of_not_isFresh (h : c.isFresh ≠ true) (made : Generation × CellStore) :
    c.install made = .error (.state .alreadyInitialized) :=
  if_neg h

theorem install_eq_ok {made : Generation × CellStore} {installed : Cache × CellStore}
    (h : c.install made = .ok installed) : c = .new ∧ installed = (⟨some made.1, false⟩, made.2) := by
  by_cases hfresh : c.isFresh = true
  · obtain rfl := eq_new_of_isFresh hfresh
    exact ⟨rfl, (Except.ok.inj h).symm⟩
  · rw [install_of_not_isFresh hfresh] at h
    cases h

theorem accepts_of_isFresh (h : c.isFresh = true) : c.Accepts := by
  obtain rfl := eq_new_of_isFresh h
  exact ⟨fun _ _ => ⟨_, rfl⟩, fun _ _ _ => ⟨_, rfl⟩⟩

theorem refuses_of_not_isFresh (h : c.isFresh ≠ true) : c.Refuses where
  setInitial _ _ := install_of_not_isFresh h _
  setInitialCells _ _ _ := install_of_not_isFresh h _

theorem vacant_of_none (h : c.installed = none) : c.Vacant := by
  have hgeneration : c.generation = .error (.state .notInitialized) := by rw [generation, h]
  exact {
    generation := hgeneration
    cell? _ := by rw [cell?, hgeneration]; rfl
    columnIndex? _ _ _ := by rw [columnIndex?, hgeneration]; rfl
    version := by rw [version, hgeneration]; rfl
    freeze _ := by rw [freeze, hgeneration]; rfl
    syncClasses _ _ := by rw [syncClasses, hgeneration]; rfl
    update _ _ _ := by rw [update, h] }

theorem serves_of_live {g : Generation} {s : CellStore} (h : c.installed = some g) (hg : g.Live s) :
    c.Serves s g := by
  have hgeneration : c.generation = .ok g := generation_eq_ok_iff.mpr h
  exact {
    mutable := hg.mutable
    cells := hg.cells
    generation := hgeneration
    cell? _ := by rw [cell?, hgeneration]; rfl
    columnIndex? _ _ := by rw [columnIndex?, hgeneration]; rfl
    version := by rw [version, hgeneration]; rfl
    freeze := by rw [freeze, hgeneration]; rfl
    syncClasses next := by
      obtain ⟨g', s', hsync, _⟩ := Generation.syncClasses_spec hg next
      rw [syncClasses, hgeneration]
      exact ⟨_, by simp only [bind, Except.bind, hsync]; rfl⟩
    update next naming := by
      rw [← hg.copyFrom_result next naming, update, h] }

end Cache

namespace Holdings

variable {w w' : Holdings} {act : Act} {n : Nat}

section CacheAt

theorem cacheAt_withCache {c : Cache} {m : Nat} (hc : w.caches[m]? = some c)
    (made : Cache × CellStore) (n : Nat) :
    (w.withCache m made).cacheAt n = if m = n then made.1 else w.cacheAt n := by
  have hm : m < w.caches.length := (List.getElem?_eq_some_iff.mp hc).1
  simp only [cacheAt, withCache, List.getElem?_set]
  split
  next => rfl
  next => rfl

theorem cacheAt_openCache (w : Holdings) (n : Nat) :
    ({ w with caches := w.caches ++ [.new] } : Holdings).cacheAt n = w.cacheAt n := by
  simp only [cacheAt, List.getElem?_append]
  split
  next => rfl
  next hn =>
    rw [List.getElem?_eq_none (Nat.not_lt.mp hn), List.getElem?_singleton]
    split
    next => rfl
    next => rfl

theorem cacheAt_eq {c : Cache} (hc : w.caches[n]? = some c) : w.cacheAt n = c := by
  rw [cacheAt, hc, Option.getD_some]

end CacheAt

theorem Evolves.live {g : Generation} (hw : w.Evolves act w') (h : g.Live w.cells) :
    g.Live w'.cells where
  mutable := h.mutable
  cells id i hi := by
    rw [hw.mutable_read i (h.index_lt hi)]
    exact h.cells id i hi
  distinct := h.distinct

section Moving

theorem moves_other {m : Nat} {c : Cache} {made : Cache × CellStore} (hc : w.caches[m]? = some c)
    (hm : m ≠ n) (hinstalls : act.installs n = false) (hcloses : act.closes n = false) :
    w.Moves act n (w.withCache m made) :=
  .kept hinstalls hcloses ((cacheAt_withCache hc made n).trans (if_neg hm))

theorem moves_install {m : Nat} {c : Cache} {made : Generation × CellStore}
    {installed : Cache × CellStore} (hc : w.caches[m]? = some c) (h : c.install made = .ok installed)
    (hlive : made.1.Live made.2) (hinstalls : act.installs n = (m == n))
    (hcloses : act.closes n = false) : w.Moves act n (w.withCache m installed) := by
  by_cases hm : m = n
  · subst hm
    obtain ⟨hnew, rfl⟩ := Cache.install_eq_ok h
    have hafter := (cacheAt_withCache hc (⟨some made.1, false⟩, made.2) m).trans (if_pos rfl)
    exact .installed (hinstalls.trans (beq_self_eq_true m)) hcloses ((cacheAt_eq hc).trans hnew)
      hafter hlive
  · exact moves_other hc hm (hinstalls.trans (beq_false_of_ne hm)) hcloses

theorem moves_rework {m : Nat} {c : Cache} {g g' : Generation} {s' : CellStore}
    (hc : w.caches[m]? = some c) (hg : c.installed = some g) (hlive : g.Live w.cells → g'.Live s')
    (hinstalls : act.installs n = false) (hcloses : act.closes n = false) :
    w.Moves act n (w.withCache m ({ c with installed := some g' }, s')) := by
  by_cases hm : m = n
  · subst hm
    have hat := cacheAt_eq hc
    have hafter := (cacheAt_withCache hc ({ c with installed := some g' }, s') m).trans (if_pos rfl)
    exact .reworked hinstalls hcloses (hat ▸ hg) (hat ▸ hafter) hlive
  · exact moves_other hc hm hinstalls hcloses

theorem moves_update {m : Nat} {c : Cache} (hc : w.caches[m]? = some c) (other : Generation)
    (naming : TableNaming) (hinstalls : act.installs n = false) (hcloses : act.closes n = false) :
    w.Moves act n (w.withCache m (c.update other naming w.cells).2) := by
  cases hg : c.installed with
  | none =>
    rw [Cache.update_of_none hg]
    refine .kept hinstalls hcloses ((cacheAt_withCache hc _ n).trans ?_)
    split
    next hm => exact hm ▸ (cacheAt_eq hc).symm
    next => rfl
  | some g =>
    rw [Cache.update_of_some hg]
    exact moves_rework hc hg (fun hlive => hlive.copyFrom other naming) hinstalls hcloses

theorem moves_sync {m : Nat} {c : Cache} {other : Generation} {made : Cache × CellStore}
    (hc : w.caches[m]? = some c) (h : c.syncClasses other w.cells = .ok made)
    (hinstalls : act.installs n = false) (hcloses : act.closes n = false) :
    w.Moves act n (w.withCache m made) := by
  obtain ⟨g, hg, h⟩ := bind_eq_ok_iff.mp h
  obtain ⟨⟨g', s'⟩, hsync, h⟩ := bind_eq_ok_iff.mp h
  obtain rfl := Except.ok.inj h
  exact moves_rework hc (Cache.generation_eq_ok_iff.mp hg) (fun hlive => hlive.syncClasses hsync)
    hinstalls hcloses

theorem moves_close {m : Nat} {c : Cache} (hc : w.caches[m]? = some c) :
    w.Moves (.closeCache m) n (w.withCache m (c.close, w.cells)) := by
  by_cases hm : m = n
  · subst hm
    have hafter := (cacheAt_withCache hc (c.close, w.cells) m).trans (if_pos rfl)
    exact .closed rfl (beq_self_eq_true m) hafter
  · exact moves_other hc hm rfl (beq_false_of_ne hm)

theorem moves_perform (h : w.perform? act = some w') (n : Nat) : w.Moves act n w' := by
  cases perform?_eq_some_iff.mp h with
  | openCache => exact .kept rfl rfl (cacheAt_openCache w n)
  | @install _ _ _ g _ hc _ hinstall =>
    have hlive := (g.snapshot_spec w.cells).2.1
    exact moves_install hc hinstall hlive rfl rfl
  | @installCells _ version classes _ _ hc hinstall =>
    have hlive := Generation.live_new version classes w.cells
    exact moves_install hc hinstall hlive rfl rfl
  | @updateCache _ _ _ other naming hc => exact moves_update hc other naming rfl rfl
  | syncCache hc _ hsync => exact moves_sync hc hsync rfl rfl
  | closeCache hc => exact moves_close hc
  | _ => exact .kept rfl rfl rfl

end Moving

namespace Chronicled

variable {done : List Act} {c : Cache}

theorem empty (n : Nat) : Holdings.empty.Chronicled n [] where
  initialized := rfl
  closed := rfl
  once := Nat.zero_le _
  live _ hg := nomatch hg

theorem isFresh (h : w.Chronicled n done) :
    (w.cacheAt n).isFresh = !(done.any (Act.installs n) || done.any (Act.closes n)) := by
  rw [Cache.isFresh_eq, h.initialized, h.closed]
  cases done.any (Act.installs n) <;> cases done.any (Act.closes n) <;> rfl

theorem perform (h : w.Chronicled n done) (hp : w.perform? act = some w') :
    w'.Chronicled n (done ++ [act]) := by
  have hevolves := evolves_perform hp
  cases moves_perform hp n with
  | kept hinstalls hcloses hkept =>
    constructor
    · simp [hkept, h.initialized, hinstalls, hcloses]
    · simp [hkept, h.closed, hcloses]
    · simpa [hinstalls] using h.once
    · intro g hg
      exact hevolves.live (h.live g (hkept ▸ hg))
  | reworked hinstalls hcloses hg hg' hlive =>
    have hstill : (w'.cacheAt n).isInitialized = (w.cacheAt n).isInitialized := by
      rw [hg', Cache.isInitialized, Cache.isInitialized, hg]
      rfl
    constructor
    · simp [hstill, h.initialized, hinstalls, hcloses]
    · simp [hg', h.closed, hcloses]
    · simpa [hinstalls] using h.once
    · intro g₁ hg₁
      rw [hg'] at hg₁
      obtain rfl := Option.some.inj hg₁
      exact hlive (h.live _ hg)
  | installed hinstalls hcloses hnew hg hlive =>
    have hfresh : (!(done.any (Act.installs n) || done.any (Act.closes n))) = true := by
      rw [← h.isFresh, hnew]
      rfl
    rw [Bool.not_eq_true', Bool.or_eq_false_iff] at hfresh
    obtain ⟨hfirst, hopen⟩ := hfresh
    constructor
    · simp [hg, Cache.isInitialized, hinstalls, hcloses, hopen]
    · simp [hg, hcloses, hopen]
    · have hzero : done.countP (Act.installs n) = 0 := by
        rw [List.countP_eq_zero]
        simpa using hfirst
      simp [hzero, hinstalls]
    · intro g₁ hg₁
      rw [hg] at hg₁
      obtain rfl := Option.some.inj hg₁
      exact hlive
  | closed hinstalls hcloses hclosed =>
    constructor
    · simp [hclosed, Cache.close, Cache.isInitialized, hcloses]
    · simp [hclosed, Cache.close, hcloses]
    · simpa [hinstalls] using h.once
    · intro g hg
      rw [hclosed] at hg
      cases hg

theorem run (h : w.Chronicled n done) (acts : List Act) :
    (w.run acts).Chronicled n (done ++ w.performed acts) := by
  induction acts generalizing w done with
  | nil =>
    rw [performed, List.append_nil]
    exact h
  | cons act acts ih =>
    rw [performed, ← List.append_assoc]
    refine ih (w := w.step act) ?_
    rw [step]
    cases hp : w.perform? act with
    | none =>
      rw [Option.map_none, Option.toList_none, List.append_nil]
      exact h
    | some w' => exact h.perform hp

end Chronicled

theorem step_of_refuses {c : Cache} (hc : w.caches[n]? = some c) (h : c.Refuses)
    (hact : act.installs n = true) : w.step act = w := by
  cases act with
  | install m source =>
    obtain rfl := beq_iff_eq.mp hact
    have hnone : w.perform? (.install m source) = none := by
      simp [perform?, hc, h.setInitial, Except.toOption]
    rw [step, hnone, Option.getD_none]
  | installCells m version classes =>
    obtain rfl := beq_iff_eq.mp hact
    have hnone : w.perform? (.installCells m version classes) = none := by
      simp [perform?, hc, h.setInitialCells, Except.toOption]
    rw [step, hnone, Option.getD_none]
  | _ => cases hact

end Holdings

/-- A generation is installed in a cache at most once. Until this or a closing any generation can be
installed, and after it none, which changes nothing. From then on up to the closing the cache serves a
generation that can change, and otherwise no use of the cache finds one. -/
theorem cache_lifecycle (acts : List Act) {n : Nat} {c : Cache}
    (hc : (Holdings.empty.run acts).caches[n]? = some c) :
    (Holdings.empty.performed acts).countP (Act.installs n) ≤ 1 ∧
    (if Holdings.empty.hasInstalled acts n || Holdings.empty.hasClosed acts n then
      c.Refuses ∧ ∀ act, act.installs n = true →
        (Holdings.empty.run acts).step act = Holdings.empty.run acts
    else c.Accepts) ∧
    if Holdings.empty.hasInstalled acts n && !Holdings.empty.hasClosed acts n then
      ∃ g, c.Serves (Holdings.empty.run acts).cells g
    else c.Vacant := by
  have h := (Holdings.Chronicled.empty n).run acts
  have hat := Holdings.cacheAt_eq hc
  have hinitialized := h.initialized
  have hfresh := h.isFresh
  rw [hat, List.nil_append] at hinitialized hfresh
  refine ⟨h.once, ?_, ?_⟩
  · split
    next hover =>
      have hrefuses : c.Refuses := Cache.refuses_of_not_isFresh fun hnew => by
        rw [hfresh, Bool.not_eq_true'] at hnew
        exact Bool.false_ne_true (hnew.symm.trans hover)
      exact ⟨hrefuses, fun _ hact => Holdings.step_of_refuses hc hrefuses hact⟩
    next hbefore =>
      have hnew : c.isFresh = true := by
        rw [hfresh, Bool.not_eq_true']
        exact eq_false_of_ne_true hbefore
      exact Cache.accepts_of_isFresh hnew
  · split
    next hin =>
      obtain ⟨g, hg⟩ := Option.isSome_iff_exists.mp (hinitialized.trans hin)
      exact ⟨g, Cache.serves_of_live hg (h.live g (hat ▸ hg))⟩
    next hout =>
      have hnone : c.installed = none := Option.not_isSome_iff_eq_none.mp fun hsome =>
        hout (hinitialized.symm.trans hsome)
      exact Cache.vacant_of_none hnone

/-- The cache serves its copy of a generation, and refuses a second one, until it is closed. -/
theorem closed_cache_lifecycle : ∃ c c', (Holdings.empty.run copying).caches[0]? = some c ∧
    (Holdings.empty.run (copying ++ updating)).caches[0]? = some c' ∧ c.Refuses ∧
    (∃ g, c.Serves (Holdings.empty.run copying).cells g) ∧ c'.Refuses ∧ c'.Vacant := by
  obtain ⟨_, hrefuses, hserves⟩ := cache_lifecycle copying (n := 0) rfl
  obtain ⟨_, hrefuses', hvacant⟩ := cache_lifecycle (copying ++ updating) (n := 0) rfl
  rw [if_pos (by decide +kernel)] at hrefuses hserves hrefuses'
  rw [if_neg (by decide +kernel)] at hvacant
  exact ⟨_, _, rfl, rfl, hrefuses.1, hserves, hrefuses'.1, hvacant⟩

end ColumnAtlas
