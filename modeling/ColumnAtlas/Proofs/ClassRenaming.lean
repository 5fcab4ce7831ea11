import ColumnAtlas.ClassDecl
import ColumnAtlas.SortedMapLemmas

namespace ColumnAtlas

/-- Puts one class name in the place of another. -/
def renamed (old new : String) (className : String) : String :=
  if className = old then new else className

def FieldDecl.mapClasses (σ : String → String) (f : FieldDecl) : FieldDecl :=
  { f with
    linkedClass := f.linkedClass.map σ
    backlink := f.backlink.map fun b => { b with sourceClass := σ b.sourceClass } }

/-- Applies a function to the name of a class and to the class names that its fields refer to. -/
def ClassDecl.mapClasses (σ : String → String) (c : ClassDecl) : ClassDecl :=
  ⟨σ c.className, c.fields.map (FieldDecl.mapClasses σ)⟩

def Placement.mapClasses (σ : String → String) (p : Placement) : Placement :=
  { p with
    linkedClass := p.linkedClass.map σ
    source := p.source.map fun b => { b with className := σ b.className } }

def Mapping.mapClasses (σ : String → String) (m : Mapping) : Mapping :=
  ⟨σ m.className, m.fields.map fun _ p => p.mapClasses σ⟩

theorem renamed_self (old new : String) : renamed old new old = new := by
  simp [renamed]

theorem renamed_of_ne {old new className : String} (h : className ≠ old) :
    renamed old new className = className := by
  simp [renamed, h]

theorem renamed_ne {old new className : String} (h : className ≠ new) :
    renamed old new className ≠ old := by
  by_cases ho : className = old
  · rw [ho, renamed_self]
    exact fun he => h (ho.trans he.symm)
  · rw [renamed_of_ne ho]
    exact ho

/-- A name that was replaced by a new one comes back. -/
theorem renamed_renamed {old new className : String} (h : className ≠ new) :
    renamed new old (renamed old new className) = className := by
  by_cases ho : className = old
  · rw [ho, renamed_self, renamed_self]
  · rw [renamed_of_ne ho, renamed_of_ne h]

theorem FieldDecl.mapClasses_id (f : FieldDecl) : f.mapClasses id = f := by
  obtain ⟨name, fieldType, linkedClass, backlink⟩ := f
  cases backlink <;> simp [mapClasses]

theorem ClassDecl.mapClasses_id (c : ClassDecl) : c.mapClasses id = c := by
  have h : FieldDecl.mapClasses id = id := funext FieldDecl.mapClasses_id
  simp [mapClasses, h]

theorem FieldDecl.mapClasses_comp (σ τ : String → String) (f : FieldDecl) :
    (f.mapClasses σ).mapClasses τ = f.mapClasses (τ ∘ σ) := by
  obtain ⟨name, fieldType, linkedClass, backlink⟩ := f
  cases backlink <;> simp [mapClasses]

theorem ClassDecl.mapClasses_comp (σ τ : String → String) (c : ClassDecl) :
    (c.mapClasses σ).mapClasses τ = c.mapClasses (τ ∘ σ) := by
  have h : FieldDecl.mapClasses τ ∘ FieldDecl.mapClasses σ = FieldDecl.mapClasses (τ ∘ σ) :=
    funext fun f => f.mapClasses_comp σ τ
  simp [mapClasses, h]

theorem Placement.mapClasses_id (p : Placement) : p.mapClasses id = p := by
  obtain ⟨index, fieldType, linkedClass, source⟩ := p
  cases source <;> simp [mapClasses]

theorem Mapping.mapClasses_id (m : Mapping) : m.mapClasses id = m := by
  have h : m.fields.map (fun _ p => p.mapClasses id) = m.fields := by
    apply SortedMap.eq_of_get?
    intro k
    rw [SortedMap.get?_map]
    cases m.fields.get? k with
    | none => rfl
    | some p => exact congrArg some p.mapClasses_id
  simp [mapClasses, h]

theorem Mapping.get?_mapClasses (σ : String → String) (m : Mapping) (field : String) :
    (m.mapClasses σ).get? field = (m.get? field).map (Placement.mapClasses σ) :=
  SortedMap.get?_map (fun _ (p : Placement) => p.mapClasses σ) m.fields field

theorem ClassDecl.renameClass_of_ne {c : ClassDecl} {old new : String} (h : c.className ≠ old) :
    c.renameClass old new = c.mapClasses (renamed old new) := by
  simp only [renameClass, mapClasses, renamed_of_ne h]
  rfl

end ColumnAtlas
