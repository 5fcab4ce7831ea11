import ColumnAtlas.Proofs.LoadedRegistry

namespace ColumnAtlas

namespace Registry

/-- A registry without classes, or with the classes of a JSON text. -/
inductive Founded : Registry → Prop
  | new (settings : Settings) : Founded (new settings)
  | load {settings : Settings} {raw : String} {r : Registry} (h : load settings raw = .ok r) : Founded r

/-- No registered class has an empty name. -/
def Named (r : Registry) : Prop := ∀ id c, r.decl? id = some c → c.className ≠ ""

/-- The registration gives a registered class the empty name. -/
def Blanks (r : Registry) (e : Registration) : Prop :=
  ∃ id c, e = .rename id "" ∧ r.decl? id = some c

variable {r r' : Registry} {id : ClassId} {c : ClassDecl}

namespace Named

theorem withClass (h : r.Named) (hc : c.className ≠ "") : (r.withClass c).Named := by
  intro id' c' hc'
  rw [decl?_withClass] at hc'
  split at hc'
  next =>
    obtain rfl := Option.some.inj hc'
    exact hc
  next => exact h id' c' hc'

theorem withoutClass (h : r.Named) (id : ClassId) (c : ClassDecl) : (r.withoutClass id c).Named := by
  intro id' c' hc'
  rw [decl?_withoutClass] at hc'
  split at hc'
  next => cases hc'
  next => exact h id' c' hc'

theorem withName_iff (h : r.Named) (hr : r.Coherent) (hc : r.decl? id = some c) {new : String} :
    (r.withName id c new).Named ↔ new ≠ "" := by
  constructor
  · intro hnamed
    have hrenamed : (r.withName id c new).decl? id =
        some (c.mapClasses (renamed c.className new)) := by
      rw [hr.decl?_withName hc, hc, Option.map_some]
    have hname := hnamed id _ hrenamed
    rwa [ClassDecl.mapClasses, renamed_self] at hname
  · intro hnew id' c₁ hc₁
    rw [hr.decl?_withName hc] at hc₁
    obtain ⟨c', hc', rfl⟩ := Option.map_eq_some_iff.mp hc₁
    rw [ClassDecl.mapClasses]
    by_cases ho : c'.className = c.className
    · rwa [ho, renamed_self]
    · rw [renamed_of_ne ho]
      exact h id' c' hc'

theorem classId?_empty (h : r.Named) (hr : r.Coherent) : r.classId? "" = none := by
  cases hid : r.classId? "" with
  | none => rfl
  | some id =>
    obtain ⟨c, hc, hn⟩ := (hr.named "" id).mp hid
    exact absurd hn (h id c hc)

/-- Of all registrations only a renaming can take the name of a class away. -/
theorem enrol_iff (h : r.Named) (hr : r.Coherent) (e : Registration) :
    (r.enrol e).Named ↔ ¬r.Blanks e := by
  have hstep := r.enrolment e
  generalize r.enrol e = r' at hstep ⊢
  cases hstep with
  | refused hrefused =>
    refine iff_of_true h ?_
    rintro ⟨id, c, rfl, hc⟩
    obtain ⟨cause, he⟩ := hrefused
    rw [rename_eq_ok_iff.mpr ⟨h.classId?_empty hr, c, hc, rfl⟩] at he
    cases he
  | register hname _ _ => exact iff_of_true (h.withClass hname) nofun
  | unregister hc => exact iff_of_true (h.withoutClass _ _) nofun
  | @rename id c new hc _ =>
    rw [h.withName_iff hr hc, not_iff_not]
    constructor
    · rintro rfl
      exact ⟨id, c, rfl, hc⟩
    · rintro ⟨_, _, he, _⟩
      exact (Registration.rename.inj he).2

/-- The classes stay named as long as no registration takes a name away, and no longer. -/
theorem run_iff (h : r.Named) (hr : r.Coherent) (es : List Registration) :
    (∀ before after, es = before ++ after → (r.run before).Named) ↔
      ∀ before e after, es = before ++ e :: after → ¬(r.run before).Blanks e := by
  constructor
  · intro hall before e after hes
    have hnext := hall (before ++ [e]) after (by simpa using hes)
    rw [run_append] at hnext
    exact ((hall before (e :: after) hes).enrol_iff (hr.run before) e).mp hnext
  · intro hnot before
    induction before using List.reverseRecOn with
    | nil => exact fun _ _ => h
    | append_singleton before e ih =>
      intro after hes
      have hes' : es = before ++ e :: after := by simpa using hes
      rw [run_append]
      exact ((ih (e :: after) hes').enrol_iff (hr.run before) e).mpr (hnot before e after hes')

theorem new (settings : Settings) : (Registry.new settings).Named := nofun

end Named

theorem registerAll_eq_run {cs : List ClassDecl} (h : r.registerAll cs = .ok r') :
    r' = r.run (cs.map .register) := by
  induction cs generalizing r with
  | nil => exact (Except.ok.inj h).symm
  | cons c cs ih =>
    rw [registerAll] at h
    rw [List.map_cons, run, List.foldl_cons, enrol]
    cases hc : r.register c with
    | error e =>
      rw [hc] at h
      cases h
    | ok p =>
      rw [hc] at h
      exact ih h

namespace Founded

theorem exists_run (h : r.Founded) :
    ∃ settings, ∃ cs : List ClassDecl, r = (Registry.new settings).run (cs.map .register) := by
  cases h with
  | new settings => exact ⟨settings, [], rfl⟩
  | @load settings raw _ h =>
    unfold Registry.load at h
    split at h
    next => cases h
    next cs _ =>
      split at h
      next hr =>
        obtain rfl := Except.ok.inj h
        exact ⟨settings, cs, registerAll_eq_run hr⟩
      next => cases h

theorem coherent (h : r.Founded) : r.Coherent := by
  obtain ⟨settings, cs, rfl⟩ := h.exists_run
  exact (Coherent.new settings).run _

/-- Registrations of new classes are no renamings, so they leave every class with a name. -/
theorem named (h : r.Founded) : r.Named := by
  obtain ⟨settings, cs, rfl⟩ := h.exists_run
  refine ((Named.new settings).run_iff (.new settings) _).mpr ?_ _ [] (List.append_nil _).symm
  rintro before e after hes ⟨id, c, rfl, _⟩
  have hmem : Registration.rename id "" ∈ cs.map .register := by simp [hes]
  obtain ⟨_, _, he⟩ := List.mem_map.mp hmem
  cases he

end Founded

/-- Whatever is registered, unregistered and renamed, every class has a name unless one that is
registered is given the empty name, which renaming does not refuse. -/
theorem named_along_run_iff (h : r.Founded) (es : List Registration) :
    (∀ before after, es = before ++ after → (r.run before).Named) ↔
      ∀ before e after, es = before ++ e :: after → ¬(r.run before).Blanks e :=
  h.named.run_iff h.coherent es

theorem dog_named_along_run : ∃ r, load .default (ClassDecl.written [.named "Dog"]) = .ok r ∧
    (r.run [.rename ⟨0⟩ "Doe"]).Named ∧
    ¬∀ before after, [.rename ⟨0⟩ ""] = before ++ after → (r.run before).Named := by
  have hdog : ClassDecl.Registrable [.named "Dog"] := ⟨by decide, by decide, by decide⟩
  obtain ⟨r, hr, henrols⟩ := load_registrable .default hdog
  have hiff := named_along_run_iff (.load hr)
  refine ⟨r, hr, (hiff [.rename ⟨0⟩ "Doe"]).mpr ?_ _ [] rfl, fun hall => ?_⟩
  · rintro before e after hes ⟨id, c, rfl, _⟩
    have hmem : Registration.rename id "" ∈ [Registration.rename ⟨0⟩ "Doe"] := by simp [hes]
    simp at hmem
  · exact (hiff _).mp hall [] _ [] rfl ⟨⟨0⟩, .named "Dog", rfl, henrols.declared ⟨0⟩⟩

/-- A class cannot be registered under the empty name, but it can be renamed to it. -/
theorem dog_blanked : (new .default).register (.named "") = .error (.argument .emptyClassName) ∧
    (∃ r, ((new .default).run [.register (.named "Dog")]).rename ⟨0⟩ "" = .ok r) ∧
    ((new .default).run [.register (.named "Dog"), .rename ⟨0⟩ ""]).decl? ⟨0⟩ = some (.named "") :=
  ⟨rfl, ⟨_, rfl⟩, rfl⟩

end Registry

end ColumnAtlas
