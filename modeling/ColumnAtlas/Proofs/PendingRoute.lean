import ColumnAtlas.Proofs.PendingChanges
import ColumnAtlas.Proofs.PhysicalRoute

namespace ColumnAtlas

/-- A column or backlink that is declared for a stored table. A link ends at a table that stands in a
given relation to the one its column points at. -/
structure Workspace.Leads (w : Workspace) (ends : TableId → TableId → Prop) (t : TableId)
    (c : ClassDecl) (f : FieldDecl) (index : Int) (reached : Option TableId) : Prop where
  registered : w.registry.declNamed? (w.storage.table t).className = some c
  declared : f ∈ c.fields
  column : f.backlink = none → (w.storage.table t).columnIndex? f.name = some index
  link : f.backlink = none → ((w.storage.table t).columnType index).isLink →
    ∃ target u, w.storage.linkTarget? t index = some target ∧ reached = some u ∧ ends target u

/-- Each segment of a path is a field of the table where the segments before it lead. -/
def Workspace.Routes (w : Workspace) (ends : TableId → TableId → Prop) (t : TableId)
    (segments : List String) (route : Route) : Prop :=
  ∀ (i : Nat) field, segments[i]? = some field → ∃ current c f index reached,
    (some t :: route.tables)[i]? = some (some current) ∧ f.name = field ∧
    route.columns[i]? = some index ∧ route.tables[i]? = some reached ∧
    w.Leads ends current c f index reached

/-- A table no longer has the name that it had in an earlier state, and another one has. -/
def Workspace.Displaced (w₀ w : Workspace) (target u : TableId) : Prop :=
  ∃ className, w₀.classTable? className = some target ∧
    (w.storage.table target).className ≠ className ∧ w.classTable? className = some u

/-- A table is itself; or changes are pending by which it was displaced. -/
def Workspace.Heir (w₀ w : Workspace) (target u : TableId) : Prop :=
  target = u ∨ (w.schema.needsRefresh = true ∧ w₀.Displaced w target u)

/-- What a step of a walk finds is a field of the table where the walk is, and the walk can go on if
the field is a relationship. -/
def Workspace.Advances (w : Workspace) (ends : TableId → TableId → Prop) (t : TableId)
    (field : String) (p : Placement) (next : Option (String × TableId)) : Prop :=
  ∃ c f, f.name = field ∧ w.Leads ends t c f p.index (next.map Prod.snd) ∧
    (p.fieldType.isRelationship → ∃ n u, next = some (n, u) ∧ w.classTable? n = some u)

namespace Workspace

variable {w₀ w : Workspace} {σ : String → String}

theorem Advances.mono {ends ends' : TableId → TableId → Prop} {t : TableId} {field : String}
    {p : Placement} {next : Option (String × TableId)} (h : w.Advances ends t field p next)
    (he : ∀ target u, ends target u → ends' target u) : w.Advances ends' t field p next := by
  obtain ⟨c, f, hname, hleads, hgoes⟩ := h
  refine ⟨c, f, hname, ⟨hleads.registered, hleads.declared, hleads.column, fun hb hl => ?_⟩, hgoes⟩
  obtain ⟨target, u, htarget, hu, hends⟩ := hleads.link hb hl
  exact ⟨target, u, htarget, hu, he target u hends⟩

theorem Leads.routes {ends : TableId → TableId → Prop} {t : TableId} {c : ClassDecl} {f : FieldDecl}
    {rest : List String} {route tail : Route} {index : Int} {reached : Option TableId}
    (hf : w.Leads ends t c f index reached) (hc : route.columns = index :: tail.columns)
    (ht : route.tables = reached :: tail.tables)
    (hr : rest = [] ∨ ∃ u, reached = some u ∧ w.Routes ends u rest tail) :
    w.Routes ends t (f.name :: rest) route := by
  intro i field hi
  cases i with
  | zero =>
    obtain rfl := Option.some.inj hi
    exact ⟨t, c, f, index, reached, rfl, rfl, by rw [hc]; rfl, by rw [ht]; rfl, hf⟩
  | succ i =>
    rw [List.getElem?_cons_succ] at hi
    rcases hr with rfl | ⟨u, rfl, hrest⟩
    · cases hi
    · obtain ⟨current, c', f', index', reached', hat, hrest⟩ := hrest i field hi
      rw [hc, ht]
      exact ⟨current, c', f', index', reached', hat, hrest⟩

theorem Routes.link_head {ends : TableId → TableId → Prop} {t target u : TableId} {field : String}
    {rest : List String} {route : Route} {c : ClassDecl} {index : Int}
    (h : w.Routes ends t (field :: rest) route)
    (hc : w.registry.declNamed? (w.storage.table t).className = some c)
    (hf : ∀ f ∈ c.fields, f.name = field → f.backlink = none) (hi : route.columns[0]? = some index)
    (hl : ((w.storage.table t).columnType index).isLink)
    (ht : w.storage.linkTarget? t index = some target) (hu : route.tables[0]? = some (some u)) :
    ends target u := by
  obtain ⟨current, c', f, index', reached, hat, hname, hindex, hreached, hleads⟩ := h 0 field rfl
  obtain rfl := Option.some.inj (Option.some.inj hat)
  obtain rfl := Option.some.inj (hi.symm.trans hindex)
  obtain rfl := Option.some.inj (hc.symm.trans hleads.registered)
  obtain rfl := Option.some.inj (hu.symm.trans hreached)
  obtain ⟨target', u', htarget, hu', hends⟩ := hleads.link (hf f hleads.declared hname) hl
  obtain rfl := Option.some.inj (ht.symm.trans htarget)
  obtain rfl := Option.some.inj hu'
  exact hends

theorem Live.not_displaced (h : w.Live) {target u : TableId} : ¬w.Displaced w target u := by
  rintro ⟨className, htarget, hname, _⟩
  exact hname (h.className_of_classTable? htarget)

/-- The table that a name leads to now is the one that it led to before, unless that was displaced. -/
theorem eq_or_displaced {className : String} {target u : TableId}
    (hbefore : w₀.classTable? className = some target)
    (hnow : w.classTable? (w.storage.table target).className = some target)
    (hu : w.classTable? className = some u) : target = u ∨ w₀.Displaced w target u := by
  by_cases hsame : (w.storage.table target).className = className
  · rw [hsame] at hnow
    exact .inl (Option.some.inj (hnow.symm.trans hu))
  · exact .inr ⟨className, hbefore, hsame, hu⟩

theorem across_of_linkedClass {className field n : String} {p : Placement}
    {next : Option (String × TableId)} (h : w.across className field p = .ok next)
    (hn : p.linkedClass = some n) (hr : p.fieldType.isRelationship) :
    ∃ u, w.classTable? n = some u ∧ next = some (n, u) := by
  simp only [across, hn, hr, if_true] at h
  cases hu : w.classTable? n with
  | none =>
    rw [hu] at h
    cases h
  | some u =>
    rw [hu] at h
    exact ⟨u, rfl, (Except.ok.inj h).symm⟩

section Step

variable {v : Workspace} {c : ClassDecl} {m : Mapping} {p : Placement} {t : TableId}
  {next : Option (String × TableId)} {className field : String}

/-- By a mapping from an earlier state a field leads to where the names of that state lead now. -/
theorem InStep.advances (hv : v.InStep) (h : w.InStep) (hs : w.registry.settings = v.registry.settings)
    (hd : w.database = v.database) (hm : c.Mapped v.storage v.database v.registry.settings m)
    (hshown : ∀ n ∈ c.reads, v.storage.Shows w.storage v.database v.registry.settings σ n)
    (ht : w.classTable? (σ c.className) = some t)
    (hc : w.registry.declNamed? (w.storage.table t).className = some (c.mapClasses σ))
    (hp : m.get? field = some p) (hnext : w.across className field p = .ok next) :
    w.Advances (fun target u => target = u ∨ v.Displaced w target u) t field p next := by
  obtain ⟨f, hf, rfl⟩ := hm.declared field p hp
  have hdeclared : f.mapClasses σ ∈ (c.mapClasses σ).fields := List.mem_map_of_mem hf
  cases hb : f.backlink with
  | some b =>
    obtain ⟨source, index, _, _, hget⟩ := hm.backward hf hb
    obtain rfl := Option.some.inj (hp.symm.trans hget)
    have hback : (f.mapClasses σ).backlink ≠ none := by simp [FieldDecl.mapClasses, hb]
    refine ⟨_, f.mapClasses σ, rfl,
      ⟨hc, hdeclared, fun hn => absurd hn hback, fun hn => absurd hn hback⟩, fun hr => ?_⟩
    obtain ⟨u, hu, rfl⟩ := across_of_linkedClass hnext rfl hr
    exact ⟨_, u, rfl, hu⟩
  | none =>
    obtain ⟨t', index, linked, ht', hi, hlinks, hget⟩ := hm.forward hf hb
    obtain rfl := Option.some.inj (hp.symm.trans hget)
    have hshow := hshown _ c.className_mem_reads
    obtain ⟨htable, hcolumns, _⟩ := hshow t' ht'
    rw [← hd, ← hs] at htable
    obtain rfl := Option.some.inj (htable.symm.trans ht)
    have hindex := (Table.columnIndex?_congr hcolumns f.name).trans hi
    have hrelationship := (hv.storage.tables t').isRelationship_columnType index
    by_cases hlink : ((v.storage.table t').columnType index).isLink
    · rw [Storage.Links, if_pos hlink] at hlinks
      obtain ⟨target, htarget, rfl⟩ := hlinks
      obtain ⟨u, hu, rfl⟩ := across_of_linkedClass hnext rfl (hrelationship.trans hlink)
      have htarget' := (hshow.linkTarget? ht' htarget).1
      have hends := eq_or_displaced (hv.classTable?_of_linkTarget? ht' htarget)
        (h.classTable?_of_linkTarget? ht htarget') hu
      exact ⟨_, f.mapClasses σ, rfl,
        ⟨hc, hdeclared, fun _ => hindex, fun _ _ => ⟨target, u, htarget', rfl, hends⟩⟩,
        fun _ => ⟨_, u, rfl, hu⟩⟩
    · have hnot : ¬((w.storage.table t').columnType index).isLink := by
        rwa [Table.columnType_congr hcolumns]
      exact ⟨_, f.mapClasses σ, rfl, ⟨hc, hdeclared, fun _ => hindex, fun _ h => absurd h hnot⟩,
        fun h => absurd (hrelationship.symm.trans h) hlink⟩

theorem InStep.advances_mapped (h : w.InStep)
    (hm : c.Mapped w.storage w.database w.registry.settings m)
    (ht : w.classTable? c.className = some t)
    (hc : w.registry.declNamed? (w.storage.table t).className = some c)
    (hp : m.get? field = some p) (hnext : w.across className field p = .ok next) :
    w.Advances Eq t field p next := by
  have hshown (n : String) :=
    (Storage.Keeps.refl w.storage w.database).shows h.storage h.linksInside w.registry.settings n
  rw [← c.mapClasses_id] at hc
  exact (h.advances h rfl rfl hm (fun n _ => hshown n) ht hc hp hnext).mono
    fun _ _ hu => hu.resolve_right h.not_displaced

/-- While changes are pending, a field leads to the target of its link, or to the table that has come by
the name of the target. -/
theorem Pending.advances (hp : w₀.Pending σ w) (h₀ : w₀.InStep) (h : w.InStep)
    (hn : w₀.schema.needsRefresh = false) (ht : w.classTable? className = some t)
    (hm : w.mappingOf className = .ok m) (hget : m.get? field = some p)
    (hnext : w.across className field p = .ok next) : w.Advances (w₀.Heir w) t field p next := by
  cases hc : w.registry.declNamed? className with
  | none =>
    rw [h.mappingOf_of_unknown hc] at hm
    cases hm
  | some c =>
    obtain ⟨_, _, rfl⟩ := h.decl?_of_declNamed? hc
    have hfound : w.registry.declNamed? (w.storage.table t).className = some c := by
      rw [h.className_of_classTable? ht, hc]
    have hfresh (hmapped : c.Mapped w.storage w.database w.registry.settings m) :
        w.Advances (w₀.Heir w) t field p next :=
      (h.advances_mapped hmapped ht hfound hget hnext).mono fun _ _ hu => .inl hu
    cases hrefresh : w.schema.needsRefresh with
    | false =>
      obtain ⟨_, m', hm', hmapped⟩ := h.mappingOf hrefresh hc
      obtain rfl := Except.ok.inj (hm.symm.trans hm')
      exact hfresh hmapped
    | true =>
      obtain ⟨m', hm', hmapped⟩ := hp.mappingOf h₀ h hn hc
      obtain rfl := Except.ok.inj (hm.symm.trans hm')
      rcases hmapped with ⟨c₀, rfl, hmapped₀, hshown⟩ | hmapped
      · have hadvances := h₀.advances h hp.settings hp.database hmapped₀ hshown ht hfound hget hnext
        exact hadvances.mono fun _ _ hu => hu.imp_right fun hdisplaced => ⟨hrefresh, hdisplaced⟩
      · exact hfresh hmapped

end Step

theorem Pending.routes (hp : w₀.Pending σ w) (h₀ : w₀.InStep) (h : w.InStep)
    (hn : w₀.schema.needsRefresh = false) {segments : List String} {className : String} {t : TableId}
    {route : Route} (ht : w.classTable? className = some t)
    (hr : w.walk className segments = .ok route) : w.Routes (w₀.Heir w) t segments route := by
  -- The walk goes by names, and the name it stands at is always the one of the table where it is.
  induction segments generalizing className t route with
  | nil => exact fun i field hi => nomatch hi
  | cons field rest ih =>
    obtain ⟨m, p, next, tail, hm, hget, hrest, hnext, htail, hcolumns, htables⟩ := walk_cons_eq_ok hr
    obtain ⟨c, f, rfl, hleads, hgoes⟩ := hp.advances h₀ h hn ht hm hget hnext
    refine hleads.routes hcolumns htables (hrest.imp_right fun hrelationship => ?_)
    obtain ⟨n, u, rfl, hu⟩ := hgoes hrelationship
    exact ⟨u, rfl, ih hu htail⟩

end Workspace

/-- A path from a stored table goes along its links, whatever changes are pending. Only where the
target of a link has lost its name to another table since the last refresh does the path lead there. -/
theorem resolve_routes {s : Storage} {cells : CellStore} {d : DatabaseId} {r : Registry} {first : Int}
    {w : Workspace} (h : Opening s d r) (hl : s.LinksInside d)
    (hw : Workspace.start s cells d r first = .ok w) (changes : List Change) {name : String}
    {t : TableId} (ht : (w.run changes).storage.tableNamed? (w.run changes).database name = some t)
    {path : String} {types : List FieldType} {route : Route}
    (hr : (w.run changes).resolve t path types = .ok route) :
    ∃ before later segments, Change.LastRefresh changes before later ∧
      FieldPath.parse path = .ok segments ∧
      (w.run changes).Routes ((w.run before).Heir (w.run changes)) t segments route := by
  have hstart := Workspace.InStep.start h hl hw
  have hnow := hstart.run changes
  obtain ⟨before, later, hsplit⟩ := Change.lastRefresh_exists changes
  obtain ⟨hn, σ, hp, _⟩ := hstart.pending_since (Workspace.settled_start hw) hsplit
  obtain ⟨segments, hsegments, hwalk, _⟩ := Workspace.resolve_eq_ok_iff.mp hr
  exact ⟨before, later, segments, hsplit, hsegments,
    hp.routes (hstart.run before) hnow hn (hnow.classTable?_of_tableNamed? ht) hwalk⟩

/-- The class of authors is renamed, and another class takes its name. -/
def namesakeChanges : List Change :=
  [.create reviewClass, .rename "Author" "Writer", .create ⟨"Author", []⟩]

theorem shelf_routes : ∃ w, Workspace.start shelf .empty ⟨0⟩ shelfClasses 1 = .ok w ∧
    (w.run namesakeChanges).storage.tableNamed? (w.run namesakeChanges).database "class_Review" =
      some ⟨2⟩ ∧
    (w.run namesakeChanges).resolve ⟨2⟩ "book.author" [.object] =
      .ok ⟨[1, 1], [some ⟨1⟩, some ⟨3⟩], .object⟩ ∧
    ∃ before later segments, Change.LastRefresh namesakeChanges before later ∧
      FieldPath.parse "book.author" = .ok segments ∧
      (w.run namesakeChanges).Routes ((w.run before).Heir (w.run namesakeChanges)) ⟨2⟩ segments
        ⟨[1, 1], [some ⟨1⟩, some ⟨3⟩], .object⟩ := by
  obtain ⟨w, hw, hstored, hr⟩ : ∃ w, Workspace.start shelf .empty ⟨0⟩ shelfClasses 1 = .ok w ∧
      (w.run namesakeChanges).storage.tableNamed? (w.run namesakeChanges).database "class_Review" =
        some ⟨2⟩ ∧
      (w.run namesakeChanges).resolve ⟨2⟩ "book.author" [.object] =
        .ok ⟨[1, 1], [some ⟨1⟩, some ⟨3⟩], .object⟩ := ⟨_, rfl, rfl, rfl⟩
  exact ⟨w, hw, hstored, hr,
    resolve_routes shelf_opening (by decide +kernel) hw namesakeChanges hstored hr⟩

/-- The link of a book points at the renamed table, and its path leads to the one with the old name. -/
theorem shelf_not_routes : Opening shelf ⟨0⟩ shelfClasses ∧ shelf.LinksInside ⟨0⟩ ∧
    ∃ w, Workspace.start shelf .empty ⟨0⟩ shelfClasses 1 = .ok w ∧
    (w.run namesakeChanges).storage.tableNamed? (w.run namesakeChanges).database "class_Book" =
      some ⟨1⟩ ∧
    (w.run namesakeChanges).storage.linkTarget? ⟨1⟩ 1 = some ⟨0⟩ ∧
    (w.run namesakeChanges).resolve ⟨1⟩ "author" [.object] = .ok ⟨[1], [some ⟨3⟩], .object⟩ ∧
    ¬(w.run namesakeChanges).Routes Eq ⟨1⟩ ["author"] ⟨[1], [some ⟨3⟩], .object⟩ := by
  refine ⟨shelf_opening, by decide +kernel, _, rfl, rfl, rfl, rfl, fun hroutes => ?_⟩
  have hends : (⟨0⟩ : TableId) = ⟨3⟩ :=
    hroutes.link_head (c := ⟨"Book", [.column "title" .string, .link "author" .object "Writer"]⟩)
      rfl (by decide) rfl rfl rfl rfl
  cases hends

end ColumnAtlas
