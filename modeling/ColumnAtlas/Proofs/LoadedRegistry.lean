import ColumnAtlas.Proofs.CoherentRegistry
import ColumnAtlas.Proofs.WrittenDocuments
import Mathlib.Data.List.Induction
import Mathlib.Data.List.Nodup

namespace ColumnAtlas

namespace ClassDecl

/-- Why a class is refused after other classes have been registered. -/
def refusal? (before : List ClassDecl) (c : ClassDecl) : Option Error :=
  if c.className = "" then some (.argument .emptyClassName)
  else if c.className ∈ before.map className then some (.argument (.duplicateClass c.className))
  else if before.length = 0xFFFFFFFF then some (.state .classIdsExhausted)
  else none

/-- Declared classes that can be registered one after the other. -/
structure Registrable (cs : List ClassDecl) : Prop where
  named : "" ∉ cs.map className
  distinct : (cs.map className).Nodup
  numbered : cs.length ≤ 0xFFFFFFFF

/-- The text of a list of declared classes. -/
def written (cs : List ClassDecl) : String := (Json.arr (cs.map toJson)).render

theorem refusal?_eq_none_iff {before : List ClassDecl} {c : ClassDecl} :
    refusal? before c = none ↔ c.className ≠ "" ∧ c.className ∉ before.map className ∧
      before.length ≠ 0xFFFFFFFF := by
  unfold refusal?
  split
  next h => simp [h]
  next hname =>
    split
    next h => simp [h]
    next hnew =>
      split
      next h => simp [h]
      next hleft => exact ⟨fun _ => ⟨hname, hnew, hleft⟩, fun _ => rfl⟩

theorem registrable_nil : Registrable [] :=
  ⟨List.not_mem_nil, List.nodup_nil, Nat.zero_le _⟩

theorem registrable_concat_iff {cs : List ClassDecl} {c : ClassDecl} :
    Registrable (cs ++ [c]) ↔ Registrable cs ∧ refusal? cs c = none := by
  rw [refusal?_eq_none_iff]
  constructor
  · rintro ⟨hnamed, hdistinct, hnumbered⟩
    rw [List.map_append, List.mem_append, not_or] at hnamed
    rw [List.map_append, List.nodup_append_comm] at hdistinct
    rw [List.length_append, List.length_singleton] at hnumbered
    obtain ⟨hnew, hold⟩ := List.nodup_cons.mp hdistinct
    have hname : c.className ≠ "" := fun he => hnamed.2 (he ▸ List.mem_cons_self)
    exact ⟨⟨hnamed.1, hold, by omega⟩, hname, hnew, by omega⟩
  · rintro ⟨⟨hnamed, hdistinct, hnumbered⟩, hname, hnew, hleft⟩
    refine ⟨?_, ?_, ?_⟩
    · simp only [List.map_append, List.mem_append, not_or]
      exact ⟨hnamed, by simpa using Ne.symm hname⟩
    · rw [List.map_append, List.nodup_append_comm]
      exact List.nodup_cons.mpr ⟨hnew, hdistinct⟩
    · rw [List.length_append, List.length_singleton]
      omega

/-- A list of classes can be registered, or there is a first class that is refused. -/
theorem registrable_or_refused (cs : List ClassDecl) : Registrable cs ∨
    ∃ before c after e, cs = before ++ c :: after ∧ Registrable before ∧
      refusal? before c = some e := by
  -- A class is judged by the classes before it, so the list is taken apart at its end.
  induction cs using List.reverseRecOn with
  | nil => exact .inl registrable_nil
  | append_singleton cs c ih =>
    rcases ih with h | ⟨before, d, after, e, rfl, h, he⟩
    · cases hc : refusal? cs c with
      | none => exact .inl (registrable_concat_iff.mpr ⟨h, hc⟩)
      | some e => exact .inr ⟨cs, c, [], e, rfl, h, hc⟩
    · exact .inr ⟨before, d, after ++ [c], e, List.append_assoc _ _ _, h, he⟩

end ClassDecl

namespace Registry

/-- A registry that holds a list of classes under their places in the list, and nothing else. -/
structure Enrols (r : Registry) (settings : Settings) (cs : List ClassDecl) : Prop where
  settings : r.settings = settings
  declared : ∀ id, r.decl? id = cs[id.raw.toNat]?
  coherent : r.Coherent
  unretired : r.retired = .empty
  next : r.nextId.toNat = cs.length

theorem enrols_new (settings : Settings) : (new settings).Enrols settings [] :=
  ⟨rfl, fun _ => rfl, .new settings, rfl, rfl⟩

section Enrols

variable {r : Registry} {settings : Settings} {cs : List ClassDecl} {c : ClassDecl}

theorem Enrols.classId?_eq_none_iff (h : r.Enrols settings cs) (name : String) :
    r.classId? name = none ↔ name ∉ cs.map ClassDecl.className := by
  constructor
  · rintro hnone hm
    obtain ⟨c, hc, rfl⟩ := List.mem_map.mp hm
    obtain ⟨i, hi, hget⟩ := List.mem_iff_getElem.mp hc
    have hraw : (UInt32.ofNat i).toNat = i := UInt32.toNat_ofNat_of_lt' (by
      have hbound := r.nextId.toNat_lt
      rw [h.next] at hbound
      exact Nat.lt_trans hi hbound)
    have hdecl : r.decl? ⟨UInt32.ofNat i⟩ = some c := by
      rw [h.declared, hraw, List.getElem?_eq_some_iff]
      exact ⟨hi, hget⟩
    have hid := (h.coherent.named c.className _).mpr ⟨c, hdecl, rfl⟩
    rw [hnone] at hid
    cases hid
  · intro hm
    cases hid : r.classId? name with
    | none => rfl
    | some id =>
      obtain ⟨c, hc, rfl⟩ := (h.coherent.named name id).mp hid
      rw [h.declared] at hc
      exact absurd (List.mem_map_of_mem (List.mem_of_getElem? hc)) hm

theorem Enrols.nextId_eq_iff (h : r.Enrols settings cs) :
    r.nextId = 0xFFFFFFFF ↔ cs.length = 0xFFFFFFFF := by
  rw [← h.next, ← UInt32.toNat_inj]
  rfl

theorem Enrols.withClass (h : r.Enrols settings cs) (hnew : r.classId? c.className = none)
    (hleft : r.nextId ≠ 0xFFFFFFFF) : (r.withClass c).Enrols settings (cs ++ [c]) := by
  refine ⟨h.settings, ?_, h.coherent.withClass hnew hleft, h.unretired, ?_⟩
  · intro id
    have hplace : (⟨r.nextId⟩ : ClassId) = id ↔ id.raw.toNat = cs.length := by
      rw [← h.next]
      constructor
      · rintro rfl
        rfl
      · exact fun he => ClassId.ext_raw (UInt32.toNat_inj.mp he.symm)
    rw [decl?_withClass, h.declared]
    simp only [hplace]
    split
    next hi => rw [hi, List.getElem?_concat_length]
    next hi =>
      rcases Nat.lt_or_gt_of_ne hi with hlt | hgt
      · rw [List.getElem?_append_left hlt]
      · have hbeyond : (cs ++ [c]).length ≤ id.raw.toNat := by
          rw [List.length_append, List.length_singleton]
          exact hgt
        rw [List.getElem?_eq_none (Nat.le_of_lt hgt), List.getElem?_eq_none hbeyond]
  · rw [List.length_append, List.length_singleton, ← h.next]
    exact toNat_succ hleft

theorem Enrols.register_accepted (h : r.Enrols settings cs) (hc : ClassDecl.refusal? cs c = none) :
    ∃ id r', r.register c = .ok (id, r') ∧ r'.Enrols settings (cs ++ [c]) := by
  obtain ⟨hname, hnew, hleft⟩ := ClassDecl.refusal?_eq_none_iff.mp hc
  have hfree := (h.classId?_eq_none_iff c.className).mpr hnew
  have hnext : r.nextId ≠ 0xFFFFFFFF := fun he => hleft (h.nextId_eq_iff.mp he)
  exact ⟨_, _, register_eq_ok_iff.mpr ⟨hname, hfree, hnext, rfl, rfl⟩, h.withClass hfree hnext⟩

theorem Enrols.register_refused (h : r.Enrols settings cs) {e : Error}
    (hc : ClassDecl.refusal? cs c = some e) : r.register c = .error e := by
  have hknown : r.ids.contains c.className ↔ c.className ∈ cs.map ClassDecl.className := by
    rw [← not_iff_not, ← h.classId?_eq_none_iff]
    exact Option.not_isSome_iff_eq_none
  unfold ClassDecl.refusal? at hc
  unfold Registry.register
  simp only [String.isEmpty_iff, hknown, h.nextId_eq_iff]
  split at hc
  next hname =>
    obtain rfl := Option.some.inj hc
    rw [if_pos hname]
  next hname =>
    rw [if_neg hname]
    split at hc
    next hold =>
      obtain rfl := Option.some.inj hc
      rw [if_pos hold]
    next hnew =>
      rw [if_neg hnew]
      split at hc
      next hlast =>
        obtain rfl := Option.some.inj hc
        rw [if_pos hlast]
      next => cases hc

theorem registerAll_append (r : Registry) (cs ds : List ClassDecl) :
    r.registerAll (cs ++ ds) = r.registerAll cs >>= fun r => r.registerAll ds := by
  induction cs generalizing r with
  | nil => rfl
  | cons c cs ih =>
    rw [List.cons_append, registerAll, registerAll]
    cases r.register c with
    | error e => rfl
    | ok p => exact ih p.2

/-- Classes that can be registered are registered, each under its place in the list. -/
theorem registerAll_registrable (settings : Settings) (h : ClassDecl.Registrable cs) :
    ∃ r, (new settings).registerAll cs = .ok r ∧ r.Enrols settings cs := by
  induction cs using List.reverseRecOn with
  | nil => exact ⟨_, rfl, enrols_new settings⟩
  | append_singleton cs c ih =>
    obtain ⟨hcs, hc⟩ := ClassDecl.registrable_concat_iff.mp h
    obtain ⟨r, hr, henrols⟩ := ih hcs
    obtain ⟨id, r', hr', henrols'⟩ := henrols.register_accepted hc
    refine ⟨r', ?_, henrols'⟩
    rw [registerAll_append, hr]
    change (r.register c >>= fun p => Except.ok p.2) = _
    rw [hr']
    rfl

/-- The first class that is refused ends the registration with its error. -/
theorem registerAll_refused (settings : Settings) {before : List ClassDecl} {e : Error}
    (h : ClassDecl.Registrable before) (hc : ClassDecl.refusal? before c = some e)
    (after : List ClassDecl) :
    (new settings).registerAll (before ++ c :: after) = .error e := by
  obtain ⟨r, hr, henrols⟩ := registerAll_registrable settings h
  have hrefused := henrols.register_refused hc
  rw [registerAll_append, hr]
  change (r.register c >>= fun p => p.2.registerAll after) = _
  rw [hrefused]
  rfl

theorem readClasses?_written (cs : List ClassDecl) :
    readClasses? (ClassDecl.written cs) = some cs := by
  have hitems := Json.asList?_map fun c (_ : c ∈ cs) => c.ofJson?_toJson
  rw [readClasses?, ClassDecl.written, Json.read?_render]
  exact hitems

theorem load_registrable (settings : Settings) (h : ClassDecl.Registrable cs) :
    ∃ r, load settings (ClassDecl.written cs) = .ok r ∧ r.Enrols settings cs := by
  obtain ⟨r, hr, henrols⟩ := registerAll_registrable settings h
  refine ⟨r, ?_, henrols⟩
  rw [load, readClasses?_written]
  simp only [hr]

theorem load_refused (settings : Settings) {before : List ClassDecl} {e : Error}
    (h : ClassDecl.Registrable before) (hc : ClassDecl.refusal? before c = some e)
    (after : List ClassDecl) :
    load settings (ClassDecl.written (before ++ c :: after)) = .error (.rejected e) := by
  have hrefused := registerAll_refused settings h hc after
  rw [load, readClasses?_written]
  simp only [hrefused]

theorem load_ok_iff (settings : Settings) (cs : List ClassDecl) :
    (∃ r, load settings (ClassDecl.written cs) = .ok r) ↔ ClassDecl.Registrable cs := by
  constructor
  · rintro ⟨r, hr⟩
    rcases ClassDecl.registrable_or_refused cs with h | ⟨before, c, after, cause, rfl, h, hc⟩
    · exact h
    · have hload := load_refused settings h hc after
      rw [hload] at hr
      cases hr
  · intro h
    obtain ⟨r, hr, _⟩ := load_registrable settings h
    exact ⟨r, hr⟩

theorem enrols_of_load {r : Registry} (hr : load settings (ClassDecl.written cs) = .ok r) :
    r.Enrols settings cs := by
  have h := (load_ok_iff settings cs).mp ⟨r, hr⟩
  obtain ⟨r', hr', henrols⟩ := load_registrable settings h
  obtain rfl := Except.ok.inj (hr'.symm.trans hr)
  exact henrols

theorem load_eq_error_iff {e : LoadError} :
    load settings (ClassDecl.written cs) = .error e ↔
      ∃ before c after cause, cs = before ++ c :: after ∧ ClassDecl.Registrable before ∧
        ClassDecl.refusal? before c = some cause ∧ e = .rejected cause := by
  constructor
  · intro he
    rcases ClassDecl.registrable_or_refused cs with h | ⟨before, c, after, cause, rfl, h, hc⟩
    · obtain ⟨r, hr, _⟩ := load_registrable settings h
      rw [hr] at he
      cases he
    · have hload := load_refused settings h hc after
      obtain rfl := Except.error.inj (hload.symm.trans he)
      exact ⟨before, c, after, cause, rfl, h, hc, rfl⟩
  · rintro ⟨before, c, after, cause, rfl, h, hc, rfl⟩
    exact load_refused settings h hc after

end Enrols

/-- Every written document is read back as it was. A registry is loaded from a written list of
classes exactly when they can all be registered; otherwise the first that is refused is reported. -/
theorem load_written (settings : Settings) :
    (∀ c : ClassDecl, (Json.read? c.toJson.render).bind ClassDecl.ofJson? = some c) ∧
    (∀ p : Placement, -0x8000000000000000 ≤ p.index → p.index ≤ 0x7FFFFFFFFFFFFFFF →
      (Json.read? p.toJson.render).bind Placement.ofJson? = some p) ∧
    (∀ s : Settings, (Json.read? s.toJson.render).bind Settings.ofJson? = some s) ∧
    (∀ c : ClassSummary, (Json.read? c.toJson.render).bind ClassSummary.ofJson? = some c) ∧
    ∀ cs : List ClassDecl,
      ((∃ r, load settings (ClassDecl.written cs) = .ok r) ↔ ClassDecl.Registrable cs) ∧
      (∀ r, load settings (ClassDecl.written cs) = .ok r → r.Enrols settings cs) ∧
      ∀ e, load settings (ClassDecl.written cs) = .error e ↔
        ∃ before c after cause, cs = before ++ c :: after ∧ ClassDecl.Registrable before ∧
          ClassDecl.refusal? before c = some cause ∧ e = .rejected cause := by
  refine ⟨?_, ?_, ?_, ?_, ?_⟩
  · intro c
    rw [Json.read?_render]
    exact c.ofJson?_toJson
  · intro p hlow hhigh
    rw [Json.read?_render]
    exact p.ofJson?_toJson hlow hhigh
  · intro s
    rw [Json.read?_render]
    exact s.ofJson?_toJson
  · intro c
    rw [Json.read?_render]
    exact c.ofJson?_toJson
  · intro cs
    exact ⟨load_ok_iff settings cs, fun _ => enrols_of_load, fun _ => load_eq_error_iff⟩

theorem load_written_owner :
    (Json.read? (Placement.column 0x7FFFFFFFFFFFFFFF .list (some "Dog")).toJson.render).bind
        Placement.ofJson? = some (.column 0x7FFFFFFFFFFFFFFF .list (some "Dog")) ∧
      ∃ r, load .default (ClassDecl.written [.named "Dog", ⟨"Owner", [.link "dogs" .list "Dog"]⟩]) =
        .ok r ∧ r.decl? ⟨1⟩ = some ⟨"Owner", [.link "dogs" .list "Dog"]⟩ := by
  have hall := load_written .default
  have hload := (hall.2.2.2.2 [.named "Dog", ⟨"Owner", [.link "dogs" .list "Dog"]⟩])
  obtain ⟨r, hr⟩ := hload.1.mpr ⟨by decide, by decide, by decide⟩
  have henrols := hload.2.1 r hr
  exact ⟨hall.2.1 _ (by decide) (by decide), r, hr, henrols.declared ⟨1⟩⟩

end Registry

end ColumnAtlas
