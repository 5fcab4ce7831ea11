import ColumnAtlas.Proofs.ClassRenaming
import ColumnAtlas.Proofs.MapEntries
import ColumnAtlas.Registry

namespace ColumnAtlas

/-- Names and declarations agree, and every identifier in use was handed out. -/
structure Registry.Coherent (r : Registry) : Prop where
  named : ∀ name id, r.classId? name = some id ↔ ∃ c, r.decl? id = some c ∧ c.className = name
  below : ∀ id c, r.decl? id = some c → id.raw < r.nextId

/-- A change of the registered classes. -/
inductive Registration where
  | register (c : ClassDecl)
  | unregister (id : ClassId)
  | rename (id : ClassId) (new : String)

namespace Registry

/-- What a registration leaves behind; a refused one changes nothing. -/
def enrol (r : Registry) : Registration → Registry
  | .register c =>
    match r.register c with
    | .ok (_, r') => r'
    | .error _ => r
  | .unregister id =>
    match r.unregister id with
    | some (_, r') => r'
    | none => r
  | .rename id new =>
    match r.rename id new with
    | .ok r' => r'
    | .error _ => r

/-- The registration fails, or there is no class to unregister. -/
def Refuses (r : Registry) : Registration → Prop
  | .register c => ∃ e, r.register c = .error e
  | .unregister id => r.unregister id = none
  | .rename id new => ∃ e, r.rename id new = .error e

def run (r : Registry) (registrations : List Registration) : Registry :=
  registrations.foldl enrol r

theorem run_append (r : Registry) (xs ys : List Registration) :
    r.run (xs ++ ys) = (r.run xs).run ys :=
  List.foldl_append

def Reachable (r : Registry) : Prop := ∃ settings registrations, r = (new settings).run registrations

/-- A class under the next identifier. -/
def withClass (r : Registry) (c : ClassDecl) : Registry :=
  { r with
    classes := r.classes.insert ⟨r.nextId⟩ c
    ids := r.ids.insert c.className ⟨r.nextId⟩
    nextId := r.nextId + 1 }

def withoutClass (r : Registry) (id : ClassId) (c : ClassDecl) : Registry :=
  { r with
    classes := r.classes.erase id
    ids := r.ids.erase c.className
    retired := r.retired.insert id c.className }

def withName (r : Registry) (id : ClassId) (c : ClassDecl) (new : String) : Registry :=
  { r with
    classes := (r.classes.insert id { c with className := new }).map fun _ c' =>
      c'.renameClass c.className new
    ids := (r.ids.erase c.className).insert new id }

/-- What a registration comes to, and under which conditions. -/
inductive Enrolment (r : Registry) : Registration → Registry → Prop
  | refused {e : Registration} (h : r.Refuses e) : Enrolment r e r
  | register {c : ClassDecl} (hname : c.className ≠ "") (hfree : r.classId? c.className = none)
      (hleft : r.nextId ≠ 0xFFFFFFFF) : Enrolment r (.register c) (r.withClass c)
  | unregister {id : ClassId} {c : ClassDecl} (hc : r.decl? id = some c) :
      Enrolment r (.unregister id) (r.withoutClass id c)
  | rename {id : ClassId} {c : ClassDecl} {new : String} (hc : r.decl? id = some c)
      (hfree : r.classId? new = none) : Enrolment r (.rename id new) (r.withName id c new)

theorem register_eq_ok_iff {r r' : Registry} {c : ClassDecl} {id : ClassId} :
    r.register c = .ok (id, r') ↔ c.className ≠ "" ∧ r.classId? c.className = none ∧
      r.nextId ≠ 0xFFFFFFFF ∧ id = ⟨r.nextId⟩ ∧ r' = r.withClass c := by
  unfold register
  split
  next h => simp [String.isEmpty_iff.mp h]
  next h =>
    have hne : c.className ≠ "" := fun he => h (String.isEmpty_iff.mpr he)
    split
    next h =>
      have hs : r.classId? c.className ≠ none := Option.isSome_iff_ne_none.mp h
      simp [hs]
    next h =>
      have hs : r.classId? c.className = none := Option.not_isSome_iff_eq_none.mp h
      split
      next h => simp [h]
      next hi =>
        constructor
        · intro he
          cases he
          exact ⟨hne, hs, hi, rfl, rfl⟩
        · rintro ⟨_, _, _, rfl, rfl⟩
          rfl

theorem unregister_eq_some_iff {r r' : Registry} {id : ClassId} {c : ClassDecl} :
    r.unregister id = some (c, r') ↔ r.decl? id = some c ∧ r' = r.withoutClass id c := by
  unfold unregister
  constructor
  · intro h
    obtain ⟨c', hc, he⟩ := Option.map_eq_some_iff.mp h
    obtain ⟨rfl, rfl⟩ := Prod.mk.inj he
    exact ⟨hc, rfl⟩
  · rintro ⟨hc, rfl⟩
    exact Option.map_eq_some_iff.mpr ⟨c, hc, rfl⟩

theorem rename_eq_ok_iff {r r' : Registry} {id : ClassId} {new : String} :
    r.rename id new = .ok r' ↔
      r.classId? new = none ∧ ∃ c, r.decl? id = some c ∧ r' = r.withName id c new := by
  unfold rename
  split
  next h =>
    have hs : r.classId? new ≠ none := Option.isSome_iff_ne_none.mp h
    simp [hs]
  next h =>
    have hs : r.classId? new = none := Option.not_isSome_iff_eq_none.mp h
    split
    next hc =>
      constructor
      · intro he
        cases he
      · rintro ⟨_, c, hc', _⟩
        exact absurd (hc'.symm.trans hc) (by simp)
    next c hc =>
      constructor
      · intro he
        cases he
        exact ⟨hs, c, hc, rfl⟩
      · rintro ⟨_, c', hc', rfl⟩
        obtain rfl := Option.some.inj (hc'.symm.trans hc)
        rfl

theorem enrolment (r : Registry) (e : Registration) : r.Enrolment e (r.enrol e) := by
  cases e with
  | register c =>
    simp only [enrol]
    split
    next hr =>
      obtain ⟨hname, hfree, hleft, _, rfl⟩ := register_eq_ok_iff.mp hr
      exact .register hname hfree hleft
    next e hr =>
      have hrefused : r.Refuses (.register c) := ⟨e, hr⟩
      exact .refused hrefused
  | unregister id =>
    simp only [enrol]
    split
    next hr =>
      obtain ⟨hc, rfl⟩ := unregister_eq_some_iff.mp hr
      exact .unregister hc
    next hr =>
      have hrefused : r.Refuses (.unregister id) := hr
      exact .refused hrefused
  | rename id new =>
    simp only [enrol]
    split
    next hr =>
      obtain ⟨hfree, c, hc, rfl⟩ := rename_eq_ok_iff.mp hr
      exact .rename hc hfree
    next e hr =>
      have hrefused : r.Refuses (.rename id new) := ⟨e, hr⟩
      exact .refused hrefused

section Reads

variable {r : Registry} {id : ClassId} {c : ClassDecl}

theorem decl?_withClass (r : Registry) (c : ClassDecl) (id : ClassId) :
    (r.withClass c).decl? id = if (⟨r.nextId⟩ : ClassId) = id then some c else r.decl? id :=
  SortedMap.get?_insert ..

theorem classId?_withClass (r : Registry) (c : ClassDecl) (name : String) :
    (r.withClass c).classId? name =
      if c.className = name then some ⟨r.nextId⟩ else r.classId? name :=
  SortedMap.get?_insert ..

theorem decl?_withoutClass (r : Registry) (id : ClassId) (c : ClassDecl) (id' : ClassId) :
    (r.withoutClass id c).decl? id' = if id' = id then none else r.decl? id' :=
  SortedMap.get?_erase ..

theorem classId?_withoutClass (r : Registry) (id : ClassId) (c : ClassDecl) (name : String) :
    (r.withoutClass id c).classId? name = if name = c.className then none else r.classId? name :=
  SortedMap.get?_erase ..

theorem classId?_withName (r : Registry) (id : ClassId) (c : ClassDecl) (new name : String) :
    (r.withName id c new).classId? name =
      if new = name then some id else if name = c.className then none else r.classId? name := by
  unfold withName classId?
  rw [SortedMap.get?_insert, SortedMap.get?_erase]

theorem toNat_succ {n : UInt32} (hn : n ≠ 0xFFFFFFFF) : (n + 1).toNat = n.toNat + 1 := by
  have hne : n.toNat ≠ 4294967295 := fun he => hn (UInt32.toNat_inj.mp he)
  have hlt := n.toNat_lt
  rw [UInt32.toNat_add]
  exact Nat.mod_eq_of_lt (by simp; omega)

namespace Coherent

theorem name_inj (h : r.Coherent) {id' : ClassId} {c' : ClassDecl} (hc : r.decl? id = some c)
    (hc' : r.decl? id' = some c') (hn : c'.className = c.className) : id' = id := by
  have hi := (h.named c.className id).mpr ⟨c, hc, rfl⟩
  have hi' := (h.named c.className id').mpr ⟨c', hc', hn⟩
  exact Option.some.inj (hi'.symm.trans hi)

theorem declNamed? (h : r.Coherent) {name : String} (hi : r.classId? name = some id) :
    ∃ c, r.decl? id = some c ∧ c.className = name ∧ r.declNamed? name = some c := by
  obtain ⟨c, hc, hn⟩ := (h.named name id).mp hi
  exact ⟨c, hc, hn, by simp [Registry.declNamed?, hi, hc]⟩

/-- A new name replaces the old one in every declaration. -/
theorem decl?_withName (h : r.Coherent) (hc : r.decl? id = some c) (new : String) (id' : ClassId) :
    (r.withName id c new).decl? id' =
      (r.decl? id').map (ClassDecl.mapClasses (renamed c.className new)) := by
  have hread : (r.withName id c new).decl? id' =
      (if id = id' then some { c with className := new } else r.decl? id').map
        fun c' => c'.renameClass c.className new := by
    unfold withName decl?
    rw [SortedMap.get?_map, SortedMap.get?_insert]
  rw [hread]
  by_cases hid : id = id'
  · subst hid
    simp only [if_true, hc, Option.map_some, Option.some.injEq]
    simp only [ClassDecl.renameClass, ClassDecl.mapClasses, renamed_self]
    rfl
  · rw [if_neg hid]
    cases hc' : r.decl? id' with
    | none => rfl
    | some c' =>
      have hne : c'.className ≠ c.className := fun hn => hid (h.name_inj hc hc' hn).symm
      simp [ClassDecl.renameClass_of_ne hne]

/-- Names lead where they led before, but for the new one. -/
theorem classId?_renamed (h : r.Coherent) (hc : r.decl? id = some c) {new name : String}
    (hname : name ≠ new) :
    (r.withName id c new).classId? (renamed c.className new name) = r.classId? name := by
  rw [classId?_withName]
  by_cases ho : name = c.className
  · rw [ho, renamed_self, if_pos rfl, (h.named _ id).mpr ⟨c, hc, rfl⟩]
  · rw [renamed_of_ne ho, if_neg (Ne.symm hname), if_neg ho]

/-- The next identifier is new. -/
theorem decl?_nextId (h : r.Coherent) : r.decl? ⟨r.nextId⟩ = none := by
  cases hd : r.decl? ⟨r.nextId⟩ with
  | none => rfl
  | some c' => exact absurd (h.below _ c' hd) (UInt32.lt_irrefl _)

/-- A class that comes and goes leaves nothing but its identifier. -/
theorem withoutClass_withClass (h : r.Coherent) (hfree : r.classId? c.className = none) :
    (r.withClass c).withoutClass ⟨r.nextId⟩ c =
      { r with retired := r.retired.insert ⟨r.nextId⟩ c.className, nextId := r.nextId + 1 } := by
  unfold Registry.withoutClass Registry.withClass
  rw [SortedMap.erase_insert _ h.decl?_nextId, SortedMap.erase_insert _ hfree]

theorem withClass (h : r.Coherent) (hfree : r.classId? c.className = none)
    (hleft : r.nextId ≠ 0xFFFFFFFF) : (r.withClass c).Coherent := by
  have hfresh := h.decl?_nextId
  refine ⟨?_, ?_⟩
  · intro name id
    rw [classId?_withClass, decl?_withClass]
    by_cases hn : c.className = name
    · subst hn
      rw [if_pos rfl]
      constructor
      · intro hi
        obtain rfl := Option.some.inj hi
        exact ⟨c, if_pos rfl, rfl⟩
      · rintro ⟨c', hc', hn'⟩
        split at hc'
        next hid => rw [hid]
        next => exact absurd ((h.named _ id).mpr ⟨c', hc', hn'⟩) (by simp [hfree])
    · rw [if_neg hn, h.named]
      split
      next hid =>
        subst hid
        simp [hfresh, hn]
      next => rfl
  · intro id c' hc'
    rw [decl?_withClass] at hc'
    rw [UInt32.lt_iff_toNat_lt]
    change id.raw.toNat < (r.nextId + 1).toNat
    rw [toNat_succ hleft]
    split at hc'
    next hid =>
      subst hid
      exact Nat.lt_succ_self _
    next => exact Nat.lt_succ_of_lt (UInt32.lt_iff_toNat_lt.mp (h.below id c' hc'))

theorem withoutClass (h : r.Coherent) (hc : r.decl? id = some c) : (r.withoutClass id c).Coherent := by
  refine ⟨?_, ?_⟩
  · intro name id'
    rw [classId?_withoutClass, decl?_withoutClass]
    by_cases hn : name = c.className
    · subst hn
      rw [if_pos rfl]
      constructor
      · intro hi
        cases hi
      · rintro ⟨c', hc', hn'⟩
        split at hc'
        next => cases hc'
        next hid => exact absurd (h.name_inj hc hc' hn') hid
    · rw [if_neg hn, h.named]
      split
      next hid =>
        subst hid
        simp [hc, Ne.symm hn]
      next => rfl
  · intro id' c' hc'
    rw [decl?_withoutClass] at hc'
    split at hc'
    next => cases hc'
    next => exact h.below id' c' hc'

theorem withName (h : r.Coherent) (hc : r.decl? id = some c) {new : String}
    (hfree : r.classId? new = none) : (r.withName id c new).Coherent := by
  have hunused (id' : ClassId) (c' : ClassDecl) (hc' : r.decl? id' = some c') : c'.className ≠ new :=
    fun hn => absurd ((h.named new id').mpr ⟨c', hc', hn⟩) (by simp [hfree])
  refine ⟨?_, ?_⟩
  · intro name id'
    rw [classId?_withName, h.decl?_withName hc]
    constructor
    · intro hi
      split at hi
      next hn =>
        obtain rfl := Option.some.inj hi
        exact ⟨_, by rw [hc]; rfl, (renamed_self _ _).trans hn⟩
      next hn =>
        split at hi
        next => cases hi
        next ho =>
          obtain ⟨c', hc', rfl⟩ := (h.named name id').mp hi
          exact ⟨_, by rw [hc']; rfl, renamed_of_ne ho⟩
    · rintro ⟨c₁, hc₁, hn₁⟩
      obtain ⟨c', hc', rfl⟩ := Option.map_eq_some_iff.mp hc₁
      by_cases ho : c'.className = c.className
      · have hname : new = name := by rw [← hn₁, ClassDecl.mapClasses, ho, renamed_self]
        rw [if_pos hname, h.name_inj hc hc' ho]
      · have hname : c'.className = name := by rw [← hn₁, ClassDecl.mapClasses, renamed_of_ne ho]
        rw [if_neg fun he => hunused id' c' hc' (hname.trans he.symm), if_neg fun he => ho (hname.trans he)]
        exact (h.named name id').mpr ⟨c', hc', hname⟩
  · intro id' c₁ hc₁
    rw [h.decl?_withName hc] at hc₁
    obtain ⟨c', hc', _⟩ := Option.map_eq_some_iff.mp hc₁
    exact h.below id' c' hc'

theorem enrol (h : r.Coherent) (e : Registration) : (r.enrol e).Coherent := by
  have hstep := r.enrolment e
  generalize r.enrol e = r' at hstep ⊢
  cases hstep with
  | refused _ => exact h
  | register _ hfree hleft => exact h.withClass hfree hleft
  | unregister hc => exact h.withoutClass hc
  | rename hc hfree => exact h.withName hc hfree

theorem run (h : r.Coherent) (registrations : List Registration) : (r.run registrations).Coherent := by
  induction registrations generalizing r with
  | nil => exact h
  | cons e es ih => exact ih (h.enrol e)

theorem new (settings : Settings) : (Registry.new settings).Coherent := by
  refine ⟨?_, ?_⟩
  · intro name id
    constructor
    · intro h
      cases h
    · rintro ⟨c, h, _⟩
      cases h
  · intro id c h
    cases h

end Coherent

end Reads

theorem Reachable.coherent {r : Registry} (h : r.Reachable) : r.Coherent := by
  obtain ⟨settings, registrations, rfl⟩ := h
  exact (Coherent.new settings).run registrations

end Registry

end ColumnAtlas
