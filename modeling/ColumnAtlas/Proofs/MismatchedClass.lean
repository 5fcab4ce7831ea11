import ColumnAtlas.Proofs.CopiedGeneration
import ColumnAtlas.Proofs.IssuedIdentifiers
import Mathlib.Data.List.Induction

namespace ColumnAtlas

namespace Registry

/-- In a run of registrations a class was unregistered, and this was its name at that point. -/
def LeftAs (r : Registry) (es : List Registration) (id : ClassId) (name : String) : Prop :=
  ∃ before after c, es = before ++ .unregister id :: after ∧
    (r.run before).decl? id = some c ∧ c.className = name

variable {r : Registry} {es : List Registration} {e : Registration} {id : ClassId} {name : String}
  {issued : List ClassId}

theorem leftAs_concat_iff : r.LeftAs (es ++ [e]) id name ↔
    r.LeftAs es id name ∨
      e = .unregister id ∧ ∃ c, (r.run es).decl? id = some c ∧ c.className = name := by
  constructor
  · rintro ⟨before, after, c, hsplit, hc, hn⟩
    rcases List.eq_nil_or_concat after with rfl | ⟨after, e', rfl⟩
    · obtain ⟨rfl, he⟩ := List.append_inj' hsplit rfl
      exact .inr ⟨(List.cons.inj he).1, c, hc, hn⟩
    · rw [List.concat_eq_append, ← List.cons_append, ← List.append_assoc] at hsplit
      exact .inl ⟨before, after, c, (List.append_inj' hsplit rfl).1, hc, hn⟩
  · rintro (⟨before, after, c, rfl, hc, hn⟩ | ⟨rfl, c, hc, hn⟩)
    · exact ⟨before, after ++ [e], c, by simp, hc, hn⟩
    · exact ⟨es, [], c, rfl, hc, hn⟩

namespace Accounted

/-- A class that was unregistered stays so: its last name is recorded once. -/
theorem retired_enrol_iff (h : r.Accounted issued) (e : Registration) :
    (r.enrol e).retired.get? id = some name ↔
      r.retired.get? id = some name ∨
        e = .unregister id ∧ ∃ c, r.decl? id = some c ∧ c.className = name := by
  have hstep := r.enrolment e
  generalize r.enrol e = r' at hstep ⊢
  cases hstep with
  | refused h =>
    cases e with
    | register c => simp
    | rename id' new => simp
    | unregister id' =>
      have hnone : r.decl? id' = none := Option.map_eq_none_iff.mp h
      by_cases hid : id' = id
      · simp [← hid, hnone]
      · simp [hid]
  | register _ _ _ => simp [Registry.withClass]
  | rename _ _ => simp [Registry.withName]
  | @unregister id' c hc =>
    rw [retired_withoutClass]
    by_cases hid : id' = id
    · subst hid
      have hnone : r.retired.get? id' = none := (h.apart id').resolve_left (by simp [hc])
      simp [hc, hnone]
    · simp [hid]

theorem lastName?_isSome (h : r.Accounted issued) (hid : id ∈ issued) :
    (r.lastName? id).isSome := by
  have hknown := (h.known id).mp ((h.handedOut id).mp hid)
  simpa [lastName?] using hknown

end Accounted

theorem retired_run_iff (settings : Settings) (es : List Registration) :
    ((new settings).run es).retired.get? id = some name ↔ (new settings).LeftAs es id name := by
  induction es using List.reverseRecOn with
  | nil => simp [LeftAs, run, new, SortedMap.get?_empty]
  | append_singleton es e ih =>
    have hrun : (new settings).run (es ++ [e]) = ((new settings).run es).enrol e := run_append _ es [e]
    rw [hrun, ((Accounted.new settings).run es).retired_enrol_iff, ih, leftAs_concat_iff]

/-- The table prefix is in front of every name that the registry knows, so that taking it off once gives
the name, even one that begins with the prefix. -/
theorem className_naming (h : r.lastName? id = some name) : r.naming.className id = name := by
  have htable : r.tableName id = tableNameOf r.settings.tablePrefix name := by
    rw [tableName, h]
    rfl
  simp only [TableNaming.className, naming, htable, classNameOf_tableNameOf]

end Registry

namespace Generation

variable {g other : Generation} {s : CellStore} {id id' : ClassId}

theorem FirstMissing.unique (h : g.FirstMissing other id) (h' : g.FirstMissing other id') :
    id = id' := by
  refine Std.le_antisymm (Std.not_lt.mp fun hlt => ?_) (Std.not_lt.mp fun hlt => ?_)
  · have hsome := h.before id' hlt h'.cached
    simp [h'.missing] at hsome
  · have hsome := h'.before id hlt h.cached
    simp [h.missing] at hsome

theorem Live.copyFrom_mismatch (h : g.Live s) (ha : g.Apart other)
    (hmissing : g.FirstMissing other id) (naming : TableNaming) :
    (g.copyFrom other naming s).1 = .error (.state (.classSetMismatch (naming.className id))) := by
  generalize hresult : g.copyFrom other naming s = result
  have hcopies := h.copies ha naming
  rw [hresult] at hcopies
  cases hcopies with
  | immutable hm =>
    rw [h.mutable] at hm
    cases hm
  | complete _ hall _ =>
    have hsome := hall id hmissing.cached
    simp [hmissing.missing] at hsome
  | mismatch _ hmissing' _ => rw [hmissing.unique hmissing']

end Generation

/-- If copying fails for want of a class that the registry knows, then the error has the name of this
class, or the one that it had when it was unregistered. -/
theorem mismatch_names_class (settings : Settings) (es : List Registration) (acts : List Act)
    {k k' : Keeper} {g other : Generation}
    (hg : (Holdings.empty.run acts).generation? k = some g) (hm : g.mutable = true)
    (hother : (Holdings.empty.run acts).generation? k' = some other) {id : ClassId}
    (hmissing : g.FirstMissing other id) (hissued : id ∈ (Registry.new settings).issued es) :
    ∃ name, (g.copyFrom other ((Registry.new settings).run es).naming
        (Holdings.empty.run acts).cells).1 = .error (.state (.classSetMismatch name)) ∧
      (∀ c, ((Registry.new settings).run es).decl? id = some c → name = c.className) ∧
      (((Registry.new settings).run es).decl? id = none →
        ∀ name', (Registry.new settings).LeftAs es id name' ↔ name' = name) := by
  have haccounted := (Registry.Accounted.new settings).run es
  have hlive := Holdings.live_of_generation? hg hm
  have hapart := (Holdings.Separate.empty.run acts).apart_of_live hg hother hlive
  obtain ⟨name, hname⟩ := Option.isSome_iff_exists.mp (haccounted.lastName?_isSome hissued)
  refine ⟨name, ?_, fun c hc => ?_, fun hnone name' => ?_⟩
  · rw [hlive.copyFrom_mismatch hapart hmissing, Registry.className_naming hname]
  · rw [Registry.lastName?, hc] at hname
    exact (Option.some.inj hname).symm
  · have hretired : ((Registry.new settings).run es).retired.get? id = some name := by
      simpa [Registry.lastName?, hnone] using hname
    rw [← Registry.retired_run_iff, hretired, Option.some.injEq, eq_comm]

/-- A class that is renamed and unregistered, after which another one gets its last name. -/
def succession : List Registration :=
  [.register (.named "Cat"), .register (.named "Dog"), .rename ⟨1⟩ "Doe", .unregister ⟨1⟩,
    .register (.named "Doe")]

/-- A table prefix that a class name begins with. -/
def doSettings : Settings := ⟨"Do", true⟩

theorem succession_mismatch : ∃ g other,
    (Holdings.empty.run gathering).generation? (.own 0) = some g ∧
    (Holdings.empty.run gathering).generation? (.own 1) = some other ∧
    g.mutable = true ∧ g.FirstMissing other ⟨1⟩ ∧ ⟨1⟩ ∈ (Registry.new doSettings).issued succession ∧
    ((Registry.new doSettings).run succession).classId? "Doe" = some ⟨2⟩ ∧
    (g.copyFrom other ((Registry.new doSettings).run succession).naming
      (Holdings.empty.run gathering).cells).1 = .error (.state (.classSetMismatch "Doe")) := by
  obtain ⟨g, other, hg, hother, hm, hmissing⟩ : ∃ g other,
      (Holdings.empty.run gathering).generation? (.own 0) = some g ∧
      (Holdings.empty.run gathering).generation? (.own 1) = some other ∧
      g.mutable = true ∧ g.FirstMissing other ⟨1⟩ := by
    refine ⟨_, _, rfl, rfl, rfl, rfl, rfl, fun id hlt _ => ?_⟩
    obtain rfl : id = ⟨0⟩ := ClassId.ext_raw (UInt32.lt_one_iff.mp hlt)
    rfl
  have hissued : ⟨1⟩ ∈ (Registry.new doSettings).issued succession := by decide
  have hleft : (Registry.new doSettings).LeftAs succession ⟨1⟩ "Doe" :=
    ⟨succession.take 3, [.register (.named "Doe")], _, rfl, rfl, rfl⟩
  obtain ⟨name, hresult, _, hlast⟩ :=
    mismatch_names_class doSettings succession gathering hg hm hother hmissing hissued
  obtain rfl := (hlast rfl "Doe").mp hleft
  exact ⟨g, other, hg, hother, hm, hmissing, hissued, rfl, hresult⟩

end ColumnAtlas
