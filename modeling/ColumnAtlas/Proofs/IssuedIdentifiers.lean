import ColumnAtlas.Proofs.CoherentRegistry

namespace ColumnAtlas

/-- A coherent registry that handed out the given identifiers one after the other. They are the ones
below the next identifier, and each of them is either registered or retired. -/
structure Registry.Accounted (r : Registry) (issued : List ClassId) : Prop extends
    Registry.Coherent r where
  known : ∀ id, id.raw < r.nextId ↔ (r.decl? id).isSome ∨ (r.retired.get? id).isSome
  apart : ∀ id, r.decl? id = none ∨ r.retired.get? id = none
  handedOut : ∀ id, id ∈ issued ↔ id.raw < r.nextId
  ascending : issued.Pairwise (· < ·)
  /-- The counter never wraps around: it is the number of identifiers, not this number modulo its range. -/
  counted : r.nextId.toNat = issued.length

namespace Registry

/-- The identifier that a registration hands out. -/
def issue? (r : Registry) : Registration → Option ClassId
  | .register c => (r.register c).toOption.map Prod.fst
  | .unregister _ => none
  | .rename _ _ => none

/-- The identifiers that a run of registrations hands out, in order. -/
def issued (r : Registry) : List Registration → List ClassId
  | [] => []
  | e :: es => (r.issue? e).toList ++ (r.enrol e).issued es

variable {r : Registry} {id : ClassId} {c : ClassDecl} {issued : List ClassId}

theorem retired_withoutClass (r : Registry) (id : ClassId) (c : ClassDecl) (id' : ClassId) :
    (r.withoutClass id c).retired.get? id' =
      if id = id' then some c.className else r.retired.get? id' :=
  SortedMap.get?_insert ..

theorem lt_nextId_withClass (c : ClassDecl) (hleft : r.nextId ≠ 0xFFFFFFFF) (id : ClassId) :
    id.raw < (r.withClass c).nextId ↔ id.raw < r.nextId ∨ id = ⟨r.nextId⟩ := by
  have hnext : (r.withClass c).nextId.toNat = r.nextId.toNat + 1 := toNat_succ hleft
  have heq : id = ⟨r.nextId⟩ ↔ id.raw.toNat = r.nextId.toNat :=
    ⟨fun h => by rw [h], fun h => ClassId.ext_raw (UInt32.toNat_inj.mp h)⟩
  rw [UInt32.lt_iff_toNat_lt, UInt32.lt_iff_toNat_lt, hnext, heq]
  omega

namespace Accounted

theorem retired_nextId (h : r.Accounted issued) : r.retired.get? ⟨r.nextId⟩ = none := by
  have hunknown := mt (h.known ⟨r.nextId⟩).mpr (UInt32.lt_irrefl _)
  exact Option.not_isSome_iff_eq_none.mp (not_or.mp hunknown).2

theorem withClass (h : r.Accounted issued) (hfree : r.classId? c.className = none)
    (hleft : r.nextId ≠ 0xFFFFFFFF) : (r.withClass c).Accounted (issued ++ [⟨r.nextId⟩]) where
  toCoherent := h.toCoherent.withClass hfree hleft
  known id := by
    rw [lt_nextId_withClass c hleft, h.known, decl?_withClass]
    by_cases hid : (⟨r.nextId⟩ : ClassId) = id
    · simp [hid]
    · rw [if_neg hid, or_iff_left (Ne.symm hid)]
      rfl
  apart id := by
    rw [decl?_withClass]
    split
    next hid => exact .inr (hid ▸ h.retired_nextId)
    next => exact h.apart id
  handedOut id := by
    rw [lt_nextId_withClass c hleft, List.mem_append, List.mem_singleton, h.handedOut]
  ascending := by
    refine List.pairwise_append.mpr ⟨h.ascending, List.pairwise_singleton _ _, fun id hid id' hid' => ?_⟩
    rw [List.mem_singleton.mp hid']
    exact (h.handedOut id).mp hid
  counted := by
    have hnext : (r.withClass c).nextId.toNat = r.nextId.toNat + 1 := toNat_succ hleft
    rw [hnext, h.counted, List.length_append, List.length_singleton]

theorem withoutClass (h : r.Accounted issued) (hc : r.decl? id = some c) :
    (r.withoutClass id c).Accounted issued where
  toCoherent := h.toCoherent.withoutClass hc
  known id' := by
    have hknown : id'.raw < (r.withoutClass id c).nextId ↔ _ := h.known id'
    rw [hknown, decl?_withoutClass, retired_withoutClass]
    by_cases hid : id' = id
    · simp [hid, hc]
    · rw [if_neg hid, if_neg (Ne.symm hid)]
  apart id' := by
    rw [decl?_withoutClass, retired_withoutClass]
    by_cases hid : id' = id
    · exact .inl (if_pos hid)
    · rw [if_neg hid, if_neg (Ne.symm hid)]
      exact h.apart id'
  handedOut := h.handedOut
  ascending := h.ascending
  counted := h.counted

theorem withName (h : r.Accounted issued) (hc : r.decl? id = some c) {new : String}
    (hfree : r.classId? new = none) : (r.withName id c new).Accounted issued where
  toCoherent := h.toCoherent.withName hc hfree
  known id' := by
    have hknown : id'.raw < (r.withName id c new).nextId ↔ _ := h.known id'
    rw [hknown, h.decl?_withName hc, Option.isSome_map]
    rfl
  apart id' := by
    rw [h.decl?_withName hc, Option.map_eq_none_iff]
    exact h.apart id'
  handedOut := h.handedOut
  ascending := h.ascending
  counted := h.counted

theorem enrol (h : r.Accounted issued) (e : Registration) :
    (r.enrol e).Accounted (issued ++ (r.issue? e).toList) := by
  cases e with
  | register c =>
    simp only [Registry.enrol, issue?]
    cases hr : r.register c with
    | error e => simpa [Except.toOption] using h
    | ok made =>
      obtain ⟨id, r'⟩ := made
      obtain ⟨_, hfree, hleft, rfl, rfl⟩ := register_eq_ok_iff.mp hr
      exact h.withClass hfree hleft
  | unregister id =>
    simp only [Registry.enrol, issue?, Option.toList_none, List.append_nil]
    split
    next c r' hr =>
      obtain ⟨hc, rfl⟩ := unregister_eq_some_iff.mp hr
      exact h.withoutClass hc
    next => exact h
  | rename id new =>
    simp only [Registry.enrol, issue?, Option.toList_none, List.append_nil]
    split
    next r' hr =>
      obtain ⟨hfree, c, hc, rfl⟩ := rename_eq_ok_iff.mp hr
      exact h.withName hc hfree
    next => exact h

theorem run (h : r.Accounted issued) (es : List Registration) :
    (r.run es).Accounted (issued ++ r.issued es) := by
  induction es generalizing r issued with
  | nil =>
    rw [Registry.issued, List.append_nil]
    exact h
  | cons e es ih =>
    rw [Registry.issued, ← List.append_assoc]
    exact ih (h.enrol e)

theorem new (settings : Settings) : (Registry.new settings).Accounted [] where
  toCoherent := Coherent.new settings
  known id := by simp [Registry.new, decl?, SortedMap.get?_empty]
  apart _ := .inl rfl
  handedOut id := by simp [Registry.new]
  ascending := .nil
  counted := rfl

end Accounted

/-- A registration leaves the registry as it was exactly if it is refused. -/
theorem enrol_eq_self_iff (r : Registry) (e : Registration) : r.enrol e = r ↔ r.Refuses e := by
  cases e with
  | register c =>
    simp only [enrol, Refuses]
    cases hr : r.register c with
    | error e => simp
    | ok made =>
      obtain ⟨id, r'⟩ := made
      obtain ⟨_, _, hleft, _, rfl⟩ := register_eq_ok_iff.mp hr
      have hnext : (r.withClass c).nextId.toNat = r.nextId.toNat + 1 := toNat_succ hleft
      have hne : r.withClass c ≠ r := fun heq => by
        rw [heq] at hnext
        omega
      simp [hne]
  | unregister id =>
    simp only [enrol, Refuses]
    cases hr : r.unregister id with
    | none => simp
    | some made =>
      obtain ⟨c, r'⟩ := made
      obtain ⟨hc, rfl⟩ := unregister_eq_some_iff.mp hr
      have hne : r.withoutClass id c ≠ r := fun heq => by
        have hread := decl?_withoutClass r id c id
        rw [heq, if_pos rfl, hc] at hread
        cases hread
      simp [hne]
  | rename id new =>
    simp only [enrol, Refuses]
    cases hr : r.rename id new with
    | error e => simp
    | ok r' =>
      obtain ⟨hfree, c, _, rfl⟩ := rename_eq_ok_iff.mp hr
      have hne : r.withName id c new ≠ r := fun heq => by
        have hread := classId?_withName r id c new new
        rw [heq, if_pos rfl, hfree] at hread
        cases hread
      simp [hne]

end Registry

/-- After any run of registrations the names and the declarations of a registry agree, and the
identifiers that it handed out, each larger than the ones before, are accounted for as registered or
retired. A registration that is refused changes nothing, and any other one changes something. -/
theorem registry_accounted (settings : Settings) (es : List Registration) :
    ((Registry.new settings).run es).Accounted ((Registry.new settings).issued es) ∧
      ∀ e, ((Registry.new settings).run es).enrol e = (Registry.new settings).run es ↔
        ((Registry.new settings).run es).Refuses e :=
  ⟨(Registry.Accounted.new settings).run es, Registry.enrol_eq_self_iff _⟩

/-- A class that is registered again gets a new identifier. -/
example : (Registry.new .default).issued [.register (.named "Dog"), .register (.named "Dog"),
    .unregister ⟨0⟩, .rename ⟨0⟩ "Cat", .register (.named "Dog")] = [⟨0⟩, ⟨1⟩] := by
  decide

end ColumnAtlas
