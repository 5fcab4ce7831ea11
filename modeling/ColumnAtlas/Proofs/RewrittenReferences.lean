import ColumnAtlas.Proofs.CoherentRegistry

namespace ColumnAtlas

def FieldDecl.Mentions (f : FieldDecl) (className : String) : Prop :=
  f.linkedClass = some className ∨ f.backlink.map BacklinkDecl.sourceClass = some className

instance (f : FieldDecl) (className : String) : Decidable (f.Mentions className) :=
  inferInstanceAs (Decidable (_ ∨ _))

/-- What a registry knows about the class that a field links to, and about the one that it reads from. -/
def FieldDecl.leads (f : FieldDecl) (r : Registry) :
    Option (Option ClassId) × Option (Option ClassId) :=
  (f.linkedClass.map r.classId?, f.backlink.map fun b => r.classId? b.sourceClass)

namespace Registry

/-- No field of a registered class refers to a class of this name. -/
def Unmentioned (r : Registry) (className : String) : Prop :=
  ∀ c ∈ r.classes.values, ∀ f ∈ c.fields, ¬f.Mentions className

instance (r : Registry) (className : String) : Decidable (r.Unmentioned className) :=
  inferInstanceAs (Decidable (∀ c ∈ r.classes.values, ∀ f ∈ c.fields, ¬f.Mentions className))

/-- A class has a new name, which stands in the place of the old one in all fields. Nothing else is
different. -/
structure Rewrites (r : Registry) (id : ClassId) (old new : String) (r' : Registry) : Prop where
  ids : r'.classes.keys = r.classes.keys
  declared : ∀ k, r'.decl? k = (r.decl? k).map fun c =>
    ⟨if k = id then new else c.className, c.fields.map (FieldDecl.mapClasses (renamed old new))⟩
  named : ∀ name, r'.classId? name =
    if new = name then some id else if name = old then none else r.classId? name
  settings : r'.settings = r.settings
  retired : r'.retired = r.retired
  nextId : r'.nextId = r.nextId

/-- References lead to the same classes as before, under a name that can be given back. -/
structure Keeps (r : Registry) (id : ClassId) (old new : String) (r' : Registry) : Prop where
  leads : ∀ k, (r'.decl? k).map (fun c => c.fields.map fun f => f.leads r') =
    (r.decl? k).map fun c => c.fields.map fun f => f.leads r
  backlinks : r'.backlinksFrom new = r.backlinksFrom old
  undone : r'.rename id old = .ok r

end Registry

theorem renamed_eq_new_iff {old new className : String} (h : className ≠ new) :
    renamed old new className = new ↔ className = old := by
  by_cases ho : className = old
  · simp [ho, renamed_self]
  · simp [renamed_of_ne ho, ho, h]

section Mentions

variable {f : FieldDecl} {c : ClassDecl} {σ : String → String} {old new : String}

theorem FieldDecl.mapClasses_eq_self (h : ∀ n, f.Mentions n → σ n = n) : f.mapClasses σ = f := by
  obtain ⟨name, fieldType, linkedClass, backlink⟩ := f
  have hlinked : linkedClass.map σ = linkedClass := by
    cases linkedClass with
    | none => rfl
    | some n => exact congrArg some (h n (.inl rfl))
  have hsource : (backlink.map fun b => { b with sourceClass := σ b.sourceClass }) = backlink := by
    cases backlink with
    | none => rfl
    | some b =>
      have hb : σ b.sourceClass = b.sourceClass := h _ (.inr rfl)
      rw [Option.map_some, hb]
  rw [mapClasses, hlinked, hsource]

theorem ClassDecl.mapClasses_eq_self (hname : σ c.className = c.className)
    (h : ∀ f ∈ c.fields, ∀ n, f.Mentions n → σ n = n) : c.mapClasses σ = c := by
  have hfields : c.fields.map (FieldDecl.mapClasses σ) = c.fields := by
    refine (List.map_congr_left fun f hf => ?_).trans (List.map_id c.fields)
    exact FieldDecl.mapClasses_eq_self (h f hf)
  rw [mapClasses, hname, hfields]

/-- A field reads from a class under its new name if it did so under the old one. -/
theorem FieldDecl.readsFrom_mapClasses (h : ¬f.Mentions new) :
    (f.mapClasses (renamed old new)).readsFrom new = f.readsFrom old := by
  unfold readsFrom mapClasses
  cases hb : f.backlink with
  | none => rfl
  | some b =>
    have hne : b.sourceClass ≠ new := fun he => h (.inr (by rw [hb, ← he]; rfl))
    simp [renamed_eq_new_iff hne]

theorem ClassDecl.reads_renamed (hname : c.className ≠ old)
    (h : ∀ f ∈ c.fields, ¬f.Mentions new) :
    (((c.mapClasses (renamed old new)).fields.filter fun f => f.readsFrom new).map fun f =>
        (c.mapClasses (renamed old new)).className ++ "." ++ f.name) =
      (c.fields.filter fun f => f.readsFrom old).map fun f => c.className ++ "." ++ f.name := by
  have hreads : c.fields.filter ((fun f => f.readsFrom new) ∘ FieldDecl.mapClasses (renamed old new)) =
      c.fields.filter fun f => f.readsFrom old :=
    List.filter_congr fun f hf => FieldDecl.readsFrom_mapClasses (h f hf)
  simp only [mapClasses, renamed_of_ne hname]
  rw [List.filter_map, List.map_map, hreads]
  rfl

theorem FieldDecl.leads_mapClasses {r r' : Registry}
    (h : ∀ n, f.Mentions n → r'.classId? (σ n) = r.classId? n) :
    (f.mapClasses σ).leads r' = f.leads r := by
  have hlinked : (f.linkedClass.map σ).map r'.classId? = f.linkedClass.map r.classId? := by
    cases hn : f.linkedClass with
    | none => rfl
    | some n => exact congrArg some (h n (.inl hn))
  have hsource : (f.mapClasses σ).backlink.map (fun b => r'.classId? b.sourceClass) =
      f.backlink.map fun b => r.classId? b.sourceClass := by
    unfold mapClasses
    cases hb : f.backlink with
    | none => rfl
    | some b => exact congrArg some (h _ (.inr (by rw [hb]; rfl)))
  exact Prod.ext hlinked hsource

end Mentions

namespace Registry

/-- A registry is determined by what it knows and by what it hands out next. -/
theorem eq_of_reads {r r' : Registry} (hsettings : r.settings = r'.settings)
    (hdecls : ∀ k, r.decl? k = r'.decl? k) (hids : ∀ n, r.classId? n = r'.classId? n)
    (hretired : r.retired = r'.retired) (hnextId : r.nextId = r'.nextId) : r = r' := by
  have hclasses : r.classes = r'.classes := SortedMap.eq_of_get? hdecls
  have hnames : r.ids = r'.ids := SortedMap.eq_of_get? hids
  cases r
  cases r'
  cases hsettings
  cases hclasses
  cases hnames
  cases hretired
  cases hnextId
  rfl

section WithName

variable {r : Registry} {id : ClassId} {c : ClassDecl} {new : String}

namespace Coherent

theorem classes_withName (h : r.Coherent) (hc : r.decl? id = some c) (new : String) :
    (r.withName id c new).classes =
      r.classes.map fun _ c' => c'.mapClasses (renamed c.className new) := by
  apply SortedMap.eq_of_get?
  intro k
  rw [SortedMap.get?_map]
  exact h.decl?_withName hc new k

theorem className_ne (h : r.Coherent) (hfree : r.classId? new = none) {k : ClassId} {c' : ClassDecl}
    (hc' : r.decl? k = some c') : c'.className ≠ new := by
  intro hn
  have hid := (h.named new k).mpr ⟨c', hc', hn⟩
  rw [hfree] at hid
  cases hid

theorem rewrites (h : r.Coherent) (hc : r.decl? id = some c) (new : String) :
    r.Rewrites id c.className new (r.withName id c new) where
  ids := by
    rw [h.classes_withName hc]
    simp [SortedMap.keys, SortedMap.map]
  declared k := by
    rw [h.decl?_withName hc]
    cases hc' : r.decl? k with
    | none => rfl
    | some c' =>
      have hname : renamed c.className new c'.className = if k = id then new else c'.className := by
        by_cases hk : k = id
        · subst hk
          obtain rfl := Option.some.inj (hc.symm.trans hc')
          rw [renamed_self, if_pos rfl]
        · rw [renamed_of_ne fun hn => hk (h.name_inj hc hc' hn), if_neg hk]
      rw [Option.map_some, Option.map_some, ClassDecl.mapClasses, hname]
  named := classId?_withName r id c new
  settings := rfl
  retired := rfl
  nextId := rfl

section Unmentioned

variable (h : r.Coherent) (hc : r.decl? id = some c) (hfree : r.classId? new = none)
  (hnew : r.Unmentioned new)

include h hc hnew

theorem leads_withName (k : ClassId) : ((r.withName id c new).decl? k).map (fun c' =>
      c'.fields.map fun f => f.leads (r.withName id c new)) =
    (r.decl? k).map fun c' => c'.fields.map fun f => f.leads r := by
  rw [h.decl?_withName hc, Option.map_map]
  cases hc' : r.decl? k with
  | none => rfl
  | some c' =>
    simp only [Option.map_some, Function.comp_apply, ClassDecl.mapClasses, List.map_map]
    refine congrArg some (List.map_congr_left fun f hf => ?_)
    refine FieldDecl.leads_mapClasses fun n hn => h.classId?_renamed hc ?_
    rintro rfl
    exact hnew c' (SortedMap.mem_values_iff.mpr ⟨k, hc'⟩) f hf hn

include hfree

theorem backlinksFrom_withName :
    (r.withName id c new).backlinksFrom new = r.backlinksFrom c.className := by
  have hvalues : (r.withName id c new).classes.values =
      r.classes.values.map (ClassDecl.mapClasses (renamed c.className new)) := by
    rw [h.classes_withName hc]
    simp [SortedMap.values, SortedMap.map]
  have hother : r.classes.values.filter
        ((fun c' => decide (c'.className ≠ new)) ∘ ClassDecl.mapClasses (renamed c.className new)) =
      r.classes.values.filter fun c' => decide (c'.className ≠ c.className) := by
    refine List.filter_congr fun c' hc' => ?_
    obtain ⟨k, hk⟩ := SortedMap.mem_values_iff.mp hc'
    exact decide_eq_decide.mpr (not_congr (renamed_eq_new_iff (h.className_ne hfree hk)))
  unfold backlinksFrom
  rw [hvalues, List.filter_map, List.flatMap_map, hother, List.flatMap_def, List.flatMap_def]
  refine congrArg List.flatten (List.map_congr_left fun c' hc' => ?_)
  obtain ⟨hmem, hne⟩ := List.mem_filter.mp hc'
  exact ClassDecl.reads_renamed (of_decide_eq_true hne) (hnew c' hmem)

/-- The old name is free afterwards, and giving it back restores every field. -/
theorem rename_back : (r.withName id c new).rename id c.className = .ok r := by
  have hold : new ≠ c.className := (h.className_ne hfree hc).symm
  have hc' : (r.withName id c new).decl? id = some (c.mapClasses (renamed c.className new)) := by
    rw [h.decl?_withName hc, hc]
    rfl
  have hname : (c.mapClasses (renamed c.className new)).className = new := renamed_self _ _
  refine rename_eq_ok_iff.mpr ⟨?_, _, hc', ?_⟩
  · rw [classId?_withName, if_neg hold, if_pos rfl]
  · refine eq_of_reads rfl (fun k => ?_) (fun n => ?_) rfl rfl
    · rw [(h.withName hc hfree).decl?_withName hc', hname, h.decl?_withName hc, Option.map_map]
      cases hk : r.decl? k with
      | none => rfl
      | some c' =>
        rw [Option.map_some, Function.comp_apply, ClassDecl.mapClasses_comp]
        have hunmentioned := hnew c' (SortedMap.mem_values_iff.mpr ⟨k, hk⟩)
        refine congrArg some (ClassDecl.mapClasses_eq_self ?_ fun f hf n hn => ?_).symm
        · exact renamed_renamed (h.className_ne hfree hk)
        · exact renamed_renamed fun he => hunmentioned f hf (he ▸ hn)
    · rw [classId?_withName, classId?_withName, hname]
      by_cases ho : c.className = n
      · rw [if_pos ho, ← ho, (h.named _ id).mpr ⟨c, hc, rfl⟩]
      · rw [if_neg ho]
        by_cases hn : n = new
        · rw [if_pos hn, hn, hfree]
        · rw [if_neg hn, if_neg (Ne.symm hn), if_neg (Ne.symm ho)]

end Unmentioned

end Coherent

end WithName

end Registry

/-- A registered class can get any name that is free, and every reference to it follows. If nothing
referred to a class of that name before, then all references lead where they did, and giving the old
name back undoes the renaming. -/
theorem rename_rewrites {r : Registry} (hr : r.Reachable) {id : ClassId} {c : ClassDecl}
    (hc : r.decl? id = some c) {new : String} (hfree : r.classId? new = none) :
    ∃ r', r.rename id new = .ok r' ∧ r.Rewrites id c.className new r' ∧
      (r.Unmentioned new → r.Keeps id c.className new r') := by
  have h := hr.coherent
  refine ⟨r.withName id c new, Registry.rename_eq_ok_iff.mpr ⟨hfree, c, hc, rfl⟩, h.rewrites hc new,
    fun hnew => ⟨?_, ?_, ?_⟩⟩
  · exact h.leads_withName hc hnew
  · exact h.backlinksFrom_withName hc hfree hnew
  · exact h.rename_back hc hfree hnew

/-- Classes that refer to each other, to themselves and to a class that is not registered. -/
def villageRegistrations : List Registration :=
  [.register ⟨"Person", [.link "friend" .object "Person", .reverse "houses" "House" "owner"]⟩,
    .register ⟨"House", [.link "owner" .object "Person", .link "street" .object "Street",
      .reverse "guests" "Person" "visits"]⟩]

def village : Registry := (Registry.new .default).run villageRegistrations

theorem village_rename_rewrites : ∃ c r', village.decl? ⟨0⟩ = some c ∧
    village.classId? "Villager" = none ∧ village.Unmentioned "Villager" ∧
    village.rename ⟨0⟩ "Villager" = .ok r' ∧ village.Rewrites ⟨0⟩ "Person" "Villager" r' ∧
    village.Keeps ⟨0⟩ "Person" "Villager" r' ∧ r'.backlinksFrom "Villager" = ["House.guests"] := by
  have hc : village.decl? ⟨0⟩ = some _ := rfl
  have hfree : village.classId? "Villager" = none := rfl
  have hnew : village.Unmentioned "Villager" := by decide
  obtain ⟨r', hr', hrewrites, hkeeps⟩ :=
    rename_rewrites (r := village) ⟨_, villageRegistrations, rfl⟩ hc hfree
  exact ⟨_, r', hc, hfree, hnew, hr', hrewrites, hkeeps hnew, (hkeeps hnew).backlinks⟩

end ColumnAtlas
