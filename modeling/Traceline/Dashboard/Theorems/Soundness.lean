import Traceline.Dashboard.Theorems.Evaluation

-- What an accepted definition promises to its evaluation.
namespace Dashboard

section Statements

variable (d : DashboardDefinition)

-- The errors by which an evaluation finds a reference or a type wrong.
def Error.reference_or_type : Error → Bool
  | .invalid _ | .resolution _ | .key_error _ | .driver (.raised _) => true
  | .driver _                                                      => false

-- What a request gives for filters and selections are texts.
def Texts (values : List (String × Json)) : Prop :=
  ∀ entry ∈ values, ∃ s, entry.2 = .str s

structure Sound (repr : Json → String) : Prop where
  required   : ∀ b ∈ d.blocks, ∀ inp ∈ b.inputs, inp.required →
    ∃ v, b.bind.lookup inp.name = some v ∧ v ≠ .null ∧ Fits d inp v
  components : ∀ b ∈ d.blocks, (REGISTRY.lookup b.component).isSome
  references : ∀ b ∈ d.blocks, ∀ entry ∈ b.bind, ∀ s, entry.2 = .str s → dollar s →
    ∃ kind name t, binding s = some (kind, name) ∧ RefType d kind name t
  evaluates  : ∀ store filters selection, Texts filters → Texts selection → ∀ e,
    resolve_definition repr d filters selection store = .error e → e.reference_or_type = false

-- A list or an object with something in it.
def composite : Json → Bool
  | .arr xs  => xs ≠ []
  | .obj kvs => kvs ≠ []
  | _        => false

def Refers (b : BlockDef) (input id : String) : Prop :=
  ∃ s, b.bind.lookup input = some (.str s) ∧ binding s = some (.filters, id)

-- The block can have a run: one is named, or one is selected.
def MayRun (b : BlockDef) : Prop :=
  (∃ f ∈ d.filters, f.type = "run_selector") ∨
  ∃ s, b.bind.lookup "run" = some (.str s) ∧ dollar s = false ∧ s ≠ ""

-- The value of the filter is used to look up a run or a case.
inductive Consulted (f : FilterDef) : Prop
  | selected : d.filters.find? (·.type = "run_selector") = some f → Consulted f
  | run : b ∈ d.blocks → Refers b "run" f.id → Consulted f
  | case : b ∈ d.blocks → (REGISTRY.lookup b.component).any (·.resolve = .trace_evidence) →
    Refers b "case" f.id → MayRun d b → Consulted f

structure Plain : Prop where
  required : ∀ b ∈ d.blocks, ∀ inp ∈ b.inputs, inp.required → b.bind.lookup inp.name ≠ some .null
  defaults : ∀ f ∈ d.filters, Consulted d f → composite f.default = false

end Statements

section Values

variable {repr : Json → String} {d : DashboardDefinition} {ctx : Context} {store : Store}
variable {filters selection : List (String × Json)} {inp : InputSpec} {f : FilterDef} {v w : Json}
variable {s name : String} {e : Error} {kind : RefKind} {t : BindingType} {run : RunRecord}

def Textual (v : Json) : Prop :=
  v = .null ∨ ∃ s, v = .str s

theorem Textual.parameter (h : Textual v) : parameter v = .ok () := by
  obtain rfl | ⟨s, rfl⟩ := h <;> rfl

theorem textual_text {s : Option String} : Textual (text s) := by
  cases s with
  | none   => exact .inl rfl
  | some s => exact .inr ⟨s, rfl⟩

theorem textual_get (h : Texts filters) : Textual (get filters name) := by
  unfold get
  cases hl : filters.lookup name with
  | none   => exact .inl rfl
  | some v => exact .inr <| h _ (mem_of_lookup hl)

-- A filter has the value of its default or what a request or the store gives it as a text.
theorem filter_value_cases (h : Texts filters) :
    Textual (filter_value store filters f) ∨
    get filters f.id = .null ∧ filter_value store filters f = f.default := by
  unfold filter_value
  dsimp only
  by_cases hnull : get filters f.id = .null
  case pos =>
    rw [if_pos hnull]
    split
    case isTrue  => exact .inl textual_text
    case isFalse => exact .inr ⟨hnull, rfl⟩
  case neg =>
    rw [if_neg hnull]
    split
    case isTrue  => exact .inl textual_text
    case isFalse => exact .inl <| textual_get h

theorem dollar_of_binding (h : binding s = some (kind, name)) : dollar s = true := by
  unfold binding at h
  unfold dollar
  split at h
  case h_1 hs =>
    rw [hs]
    rfl
  case h_2    => cases h

theorem resolve_value_plain (h : dollar s = false) :
    resolve_value repr ctx (.str s) = .ok (.str s) := by
  unfold resolve_value
  dsimp only
  rw [h]
  rfl

theorem resolve_value_ref (h : binding s = some (kind, name)) :
    resolve_value repr ctx (.str s) = resolve_ref repr s ctx := by
  unfold resolve_value
  dsimp only
  rw [dollar_of_binding h, if_pos rfl]

theorem run_field_ok (h : RUN_FIELDS.lookup name = some t) :
    ∃ w, run_field repr run name = .ok w := by
  have hmem := List.mem_map_of_mem (f := Prod.fst) (mem_of_lookup h)
  simp only [RUN_FIELDS, List.map_cons, List.map_nil, List.mem_cons, List.not_mem_nil, or_false]
    at hmem
  obtain rfl | rfl | rfl | rfl | rfl | rfl | rfl | rfl | rfl | rfl := hmem <;> exact ⟨_, rfl⟩

-- The one field of a run that is an id.
theorem run_field_id (h : RUN_FIELDS.lookup name = some t) {type : InputType}
    (hid : (id_type type).isSome) (ht : t.Satisfies type) : name = "id" := by
  have hall : ∀ e ∈ RUN_FIELDS, e.2 = .run_id ∨ e.2 = .case_id ∨ e.2 = .metric_id → e.1 = "id" := by
    decide
  refine hall _ (mem_of_lookup h) ?_
  cases type with
  | run_id    => exact .inl ht
  | case_id   => exact .inr <| .inl ht
  | metric_id => exact .inr <| .inr ht
  | _         => cases hid

theorem resolve_ref_ok (hs : binding s = some (kind, name)) (h : RefType d kind name t) :
    ∃ w, resolve_ref repr s ctx = .ok w := by
  unfold resolve_ref
  rw [hs]
  cases h with
  | filters   => exact ⟨_, rfl⟩
  | selection => exact ⟨_, rfl⟩
  | run hrun  =>
    dsimp only
    cases ctx.run with
    | none     => exact ⟨_, rfl⟩
    | some run => exact run_field_ok hrun

theorem lookup_filter_value (hnodup : (d.filters.map (·.id)).Nodup) (hf : f ∈ d.filters) :
    (d.filters.map fun f => (f.id, filter_value store filters f)).lookup f.id =
      some (filter_value store filters f) := by
  refine lookup_of_mem ?_ <| List.mem_map_of_mem hf
  rwa [List.map_map]

-- The context in which the blocks of a definition are resolved.
structure ContextOf (d : DashboardDefinition) (store : Store)
    (filters selection : List (String × Json)) (ctx : Context) : Prop where
  store_eq     : ctx.store = store
  filters_eq   : ctx.filters = d.filters.map fun f => (f.id, filter_value store filters f)
  selection_eq : ctx.selection = selection
  run_selector : ctx.run.isSome → ∃ f ∈ d.filters, f.type = "run_selector"

theorem ContextOf.resolve_filter (h : ContextOf d store filters selection ctx)
    (hnodup : (d.filters.map (·.id)).Nodup) (hf : f ∈ d.filters)
    (hs : binding s = some (.filters, f.id)) :
    resolve_value repr ctx (.str s) = .ok (filter_value store filters f) := by
  rw [resolve_value_ref hs]
  unfold resolve_ref
  rw [hs]
  dsimp only
  rw [h.filters_eq, lookup_filter_value hnodup hf]
  rfl

-- What an input of an id type is given is a text, or the default of the filter it refers to.
theorem ContextOf.read (h : ContextOf d store filters selection ctx) (hfilters : Texts filters)
    (hselection : Texts selection) (hnodup : (d.filters.map (·.id)).Nodup)
    (hid : (id_type inp.type).isSome) (hfits : v ≠ .null → Fits d inp v)
    (hv : resolve_value repr ctx v = .ok w) :
    Textual w ∨ ∃ f ∈ d.filters, (∃ s, v = .str s ∧ binding s = some (.filters, f.id)) ∧
      get filters f.id = .null ∧ w = f.default := by
  by_cases hnull : v = .null
  case pos =>
    subst hnull
    cases hv
    exact .inl <| .inl rfl
  case neg =>
    cases hfits hnull with
    | text hplain | id hplain | choice _ hplain | source _ hplain =>
      rw [resolve_value_plain hplain] at hv
      cases hv
      exact .inl <| .inr ⟨_, rfl⟩
    | bool ht | int ht | float ht =>
      rw [ht] at hid
      cases hid
    | ref hs href ht =>
      cases href with
      | filters hf _     =>
        rw [h.resolve_filter hnodup hf hs] at hv
        cases hv
        obtain htext | ⟨hget, hdefault⟩ := filter_value_cases hfilters
        · exact .inl htext
        · exact .inr ⟨_, hf, ⟨_, rfl, hs⟩, hget, hdefault⟩
      | selection _      =>
        rw [resolve_value_ref hs] at hv
        unfold resolve_ref at hv
        rw [hs] at hv
        cases hv
        rw [h.selection_eq]
        exact .inl <| textual_get hselection
      | run hrun         =>
        obtain rfl := run_field_id hrun hid ht
        rw [resolve_value_ref hs] at hv
        unfold resolve_ref at hv
        rw [hs] at hv
        dsimp only at hv
        split at hv
        case h_1 =>
          cases hv
          exact .inl <| .inl rfl
        case h_2 =>
          cases hv
          exact .inl <| .inr ⟨_, rfl⟩

theorem not_composite (hc : composite v = false) (ht : v.truthy) (h : parameter v = .error e) :
    e.reference_or_type = false := by
  cases v with
  | arr xs => simp_all [composite, Json.truthy]
  | obj xs => simp_all [composite, Json.truthy]
  | int n  =>
    unfold parameter Storage.State.bind_parameter at h
    dsimp only at h
    split at h
    case h_1   => cases h
    case h_2 he =>
      cases h
      split at he <;> cases he
      rfl
  | _      => cases h

theorem composite_raises (hc : composite v = true) :
    v.truthy ∧ ∃ m, parameter v = .error (.driver (.raised m)) := by
  cases v with
  | arr xs => exact ⟨by simpa [composite, Json.truthy] using hc, _, rfl⟩
  | obj xs => exact ⟨by simpa [composite, Json.truthy] using hc, _, rfl⟩
  | _      => cases hc

end Values

section Blocks

variable {repr : Json → String} {d : DashboardDefinition} {ctx : Context} {store : Store}
variable {filters selection bind : List (String × Json)} {inp : InputSpec} {f : FilterDef}
variable {b : BlockDef} {comp : ComponentSpec} {e : Error} {position : Position}
variable {run : RunRecord}

namespace Accepted

variable (h : Accepted repr d) (hb : b ∈ d.blocks)
variable (hcomp : REGISTRY.lookup b.component = some comp)

include h hb hcomp

theorem bind_ok : ∃ bind, resolve_bind repr ctx b.bind = .ok bind := by
  refine resolve_bind_ok fun entry hentry => ?_
  obtain ⟨name, v⟩ := entry
  cases v with
  | str s =>
    unfold resolve_value
    dsimp only
    split
    case isTrue hs =>
      obtain ⟨kind, name, t, hbinding, href⟩ := h.reference hb hcomp hentry hs
      exact resolve_ref_ok hbinding href
    case isFalse   => exact ⟨_, rfl⟩
  | _     => exact ⟨_, rfl⟩

-- A required input has a value, and so it has one when it is resolved.
theorem required_value (hin : inp ∈ comp.inputs) (hrequired : inp.required = true)
    (hbind : resolve_bind repr ctx b.bind = .ok bind) :
    ∃ v, b.bind.lookup inp.name = some v ∧ resolve_value repr ctx v = .ok (get bind inp.name) ∧
      (bind.lookup inp.name).isSome := by
  obtain ⟨v, hv⟩ := h.lookup_of_required hb hcomp hin hrequired
  obtain ⟨w, hw, hresolve⟩ := lookup_resolve_bind hbind hv
  refine ⟨v, hv, ?_, Option.isSome_of_eq_some hw⟩
  unfold get
  rw [hw]
  exact hresolve

-- The error of a lookup by a required id is that of a filter's default.
theorem of_parameter_error (hctx : ContextOf d store filters selection ctx)
    (hfilters : Texts filters) (hselection : Texts selection) (hin : inp ∈ comp.inputs)
    (hrequired : inp.required = true) (hid : (id_type inp.type).isSome)
    (hbind : resolve_bind repr ctx b.bind = .ok bind)
    (ht : (get bind inp.name).truthy) (he : parameter (get bind inp.name) = .error e) :
    ∃ f ∈ d.filters, Refers b inp.name f.id ∧ get filters f.id = .null ∧ f.default.truthy ∧
      parameter f.default = .error e := by
  obtain ⟨v, hv, hresolve, -⟩ := h.required_value hb hcomp hin hrequired hbind
  have hread := hctx.read hfilters hselection h.nodup hid (h.fits hb hcomp hin hv) hresolve
  obtain htext | ⟨f, hf, ⟨s, rfl, hs⟩, hget, hdefault⟩ := hread
  · rw [htext.parameter] at he
    cases he
  · rw [hdefault] at ht he
    exact ⟨f, hf, ⟨s, hv, hs⟩, hget, ht, he⟩

-- Without a run selector, only a block that names its run has one.
theorem may_run (hctx : ContextOf d store filters selection ctx)
    (hr : comp.resolve ≠ .filter_bar) (hbind : resolve_bind repr ctx b.bind = .ok bind)
    (hrun : bound_run ctx bind = .ok (some run)) : MayRun d b := by
  have hin := registry_run hcomp hr
  obtain ⟨v, hv, hresolve, -⟩ := h.required_value hb hcomp hin rfl hbind
  change resolve_value repr ctx v = .ok (get bind "run") at hresolve
  have hcontext (hsome : ctx.run.isSome) : MayRun d b := .inl <| hctx.run_selector hsome
  unfold bound_run at hrun
  dsimp only at hrun
  split at hrun
  case isFalse      =>
    refine hcontext ?_
    rw [Except.ok.inj hrun]
    rfl
  case isTrue htrue =>
    by_cases hnull : v = .null
    case pos =>
      rw [hnull] at hresolve
      rw [← Except.ok.inj hresolve] at htrue
      cases htrue
    case neg =>
      cases h.fits hb hcomp hin hv hnull with
      | text hplain | id hplain | choice _ hplain | source _ hplain =>
        rw [resolve_value_plain hplain] at hresolve
        have hne := Except.ok.inj hresolve ▸ htrue
        exact .inr ⟨_, hv, hplain, by simpa [Json.truthy] using hne⟩
      | bool ht | int ht | float ht => cases ht
      | ref hs href ht =>
        rw [resolve_value_ref hs] at hresolve
        unfold resolve_ref at hresolve
        rw [hs] at hresolve
        cases href with
        | filters hf htype     =>
          cases ht
          exact .inl ⟨_, hf, filter_type_run htype⟩
        | selection hpublished =>
          cases ht
          obtain ⟨_, _, _, hcomp', _, hin', hsource, -, hcase⟩ := hpublished
          rw [registry_selection hcomp' hin' hsource] at hcase
          cases hcase
        | run _                =>
          refine hcontext ?_
          dsimp only at hresolve
          split at hresolve
          case h_1       =>
            rw [← Except.ok.inj hresolve] at htrue
            cases htrue
          case h_2 hsome =>
            rw [hsome]
            rfl

theorem block_error (hctx : ContextOf d store filters selection ctx) (hfilters : Texts filters)
    (hselection : Texts selection) (he : resolve_block repr ctx b position = .error e) :
    ∃ f ∈ d.filters, Consulted d f ∧ get filters f.id = .null ∧ f.default.truthy ∧
      parameter f.default = .error e := by
  obtain ⟨bind, hbind⟩ : ∃ bind, resolve_bind repr ctx b.bind = .ok bind := h.bind_ok hb hcomp
  unfold resolve_block at he
  rw [hbind] at he
  dsimp only [Bind.bind, Except.bind] at he
  rw [hcomp] at he
  dsimp only at he
  cases hpayload : comp.payload repr bind ctx with
  | ok p    =>
    rw [hpayload] at he
    cases he
  | error e =>
    rw [hpayload] at he
    cases he
    have hitems (hr : comp.resolve = .metric_summary) :
        ∀ name ∈ ["metric", "stat"], ∃ v, bind.lookup name = some v := by
      intro name hname
      obtain ⟨inp, hin, rfl, hrequired⟩ := registry_metric_summary hcomp hr hname
      obtain ⟨-, -, -, hsome⟩ := h.required_value hb hcomp hin hrequired hbind
      exact Option.isSome_iff_exists.mp hsome
    obtain ⟨hr, hrun | ⟨run, hrun, htrace, ht, hcase⟩⟩ := payload_error hitems hpayload
    · obtain ⟨ht, hrun⟩ := bound_run_error hrun
      obtain ⟨f, hf, hrefers, hread⟩ := h.of_parameter_error hb hcomp hctx hfilters hselection
        (registry_run hcomp hr) rfl rfl hbind ht hrun
      exact ⟨f, hf, .run hb hrefers, hread⟩
    · obtain ⟨inp, hin, hname, hrequired, hid⟩ := registry_case hcomp htrace
      rw [← hname] at ht hcase
      obtain ⟨f, hf, hrefers, hread⟩ := h.of_parameter_error hb hcomp hctx hfilters hselection
        hin hrequired hid hbind ht hcase
      rw [hname] at hrefers
      have hmay := h.may_run hb hcomp hctx hr hbind hrun
      refine ⟨f, hf, .case hb ?_ hrefers hmay, hread⟩
      rw [hcomp]
      simpa using htrace

end Accepted

end Blocks

section Context

variable {repr : Json → String} {d : DashboardDefinition} {ctx : Context} {store : Store}
variable {filters selection : List (String × Json)} {f : FilterDef} {e : Error}
variable {run : Option RunRecord}

theorem selected_id_eq (hnodup : (d.filters.map (·.id)).Nodup)
    (hf : d.filters.find? (·.type = "run_selector") = some f) :
    selected_id d filters store = filter_value store filters f := by
  unfold selected_id get
  rw [hf]
  dsimp only
  rw [lookup_filter_value hnodup <| List.mem_of_find?_eq_some hf]
  rfl

theorem context_of (h : select_run d filters store = .ok run) :
    ContextOf d store filters selection (context d filters selection store run) where
  store_eq     := rfl
  filters_eq   := rfl
  selection_eq := rfl
  run_selector := by
    intro hsome
    cases hfind : d.filters.find? (·.type = "run_selector") with
    | some f =>
      exact ⟨f, List.mem_of_find?_eq_some hfind, by simpa using List.find?_some hfind⟩
    | none   =>
      have hnull : selected_id d filters store = .null := by
        unfold selected_id
        rw [hfind]
      unfold select_run at h
      rw [hnull] at h
      cases h
      cases hsome

-- Only the default of a filter that is used to look up a run or a case lets an evaluation fail.
theorem Accepted.valid_error (h : Accepted repr d) (hfilters : Texts filters)
    (hselection : Texts selection)
    (he : resolve_valid repr d filters selection store = .error e) :
    ∃ f ∈ d.filters, Consulted d f ∧ get filters f.id = .null ∧ f.default.truthy ∧
      parameter f.default = .error e := by
  obtain he | ⟨run, hrun, b, hb, position, he⟩ := resolve_valid_error he
  · obtain ⟨ht, he⟩ := select_run_error he
    cases hfind : d.filters.find? (·.type = "run_selector") with
    | none   =>
      unfold selected_id at ht
      rw [hfind] at ht
      cases ht
    | some f =>
      have hf := List.mem_of_find?_eq_some hfind
      rw [selected_id_eq h.nodup hfind] at ht he
      obtain htext | ⟨hget, hdefault⟩ := filter_value_cases hfilters
      · rw [htext.parameter] at he
        cases he
      · rw [hdefault] at ht he
        exact ⟨f, hf, .selected hfind, hget, ht, he⟩
  · obtain ⟨comp, hchecked⟩ := h.checked b hb
    exact h.block_error hb hchecked.component (context_of hrun) hfilters hselection he

end Context

-- A request that leaves one filter at its default, against a store that finds a run by any id.
section Defaults

variable {repr : Json → String} {d : DashboardDefinition} {ctx : Context} {store : Store}
variable {filters selection bind : List (String × Json)} {f g : FilterDef} {b : BlockDef}
variable {comp : ComponentSpec} {name : String} {position : Position} {r : ResolvedBlock}

def sample_run : RunRecord where
  run_id           := "r"
  status           := "complete"
  tier             := "smoke"
  case_count       := 0
  name             := "r"
  spec_version     := "1"
  dataset_version  := "1"
  created_at       := "2026-01-01T00:00:00Z"
  run_started_at   := none
  run_completed_at := none
  metrics          := []
  cases            := []

def sample_store : Store where
  latest         := none
  run            := fun _ => some sample_run
  metric_results := fun _ => []
  case_scores    := fun _ _ _ => []
  cases          := fun _ => []
  cost_summaries := fun _ => []

def others (d : DashboardDefinition) (f : FilterDef) : List (String × Json) :=
  (d.filters.filter (·.id ≠ f.id)).map fun g => (g.id, .str "r")

theorem texts_others : Texts (others d f) := by
  intro entry hentry
  obtain ⟨g, -, rfl⟩ := List.mem_map.mp hentry
  exact ⟨"r", rfl⟩

theorem get_others_self : get (others d f) f.id = .null := by
  have hnone : (others d f).lookup f.id = none := by
    refine List.lookup_eq_none_iff.mpr fun entry hentry => ?_
    obtain ⟨g, hg, rfl⟩ := List.mem_map.mp hentry
    have hne : g.id ≠ f.id := by simpa using (List.mem_filter.mp hg).right
    simpa using hne.symm
  unfold get
  rw [hnone]
  rfl

theorem get_others (hnodup : (d.filters.map (·.id)).Nodup) (hg : g ∈ d.filters)
    (hne : g.id ≠ f.id) : get (others d f) g.id = .str "r" := by
  have hsome : (others d f).lookup g.id = some (.str "r") := by
    refine lookup_of_mem ?_ ?_
    · unfold others
      rw [List.map_map]
      exact (List.filter_sublist.map _).nodup hnodup
    · exact List.mem_map.mpr ⟨g, List.mem_filter.mpr ⟨hg, by simpa using hne⟩, rfl⟩
  unfold get
  rw [hsome]
  rfl

theorem eq_of_id (hnodup : (d.filters.map (·.id)).Nodup) (hf : f ∈ d.filters) (hg : g ∈ d.filters)
    (hid : g.id = f.id) : g = f :=
  List.inj_on_of_nodup_map hnodup hg hf hid

theorem filter_value_self (hc : composite f.default = true) :
    filter_value store (others d f) f = f.default := by
  have hlatest : f.default ≠ .str "latest" := by
    intro heq
    rw [heq] at hc
    cases hc
  unfold filter_value
  dsimp only
  rw [get_others_self, if_pos rfl]
  simp [hlatest]

theorem filter_value_other (hnodup : (d.filters.map (·.id)).Nodup) (hg : g ∈ d.filters)
    (hne : g.id ≠ f.id) : filter_value store (others d f) g = .str "r" := by
  have hnull : Json.str "r" ≠ .null := Json.noConfusion
  have hlatest : Json.str "r" ≠ .str "latest" := by decide
  unfold filter_value
  dsimp only
  rw [get_others hnodup hg hne, if_neg hnull, decide_eq_false hlatest, Bool.and_false]
  rfl

theorem get_of_refers (hctx : ContextOf d store filters selection ctx)
    (hnodup : (d.filters.map (·.id)).Nodup) (hf : f ∈ d.filters) (hrefers : Refers b name f.id)
    (hbind : resolve_bind repr ctx b.bind = .ok bind) :
    get bind name = filter_value store filters f := by
  obtain ⟨s, hlookup, hs⟩ := hrefers
  obtain ⟨w, hw, hresolve⟩ := lookup_resolve_bind hbind hlookup
  rw [hctx.resolve_filter hnodup hf hs] at hresolve
  unfold get
  rw [hw, ← Except.ok.inj hresolve]
  rfl

-- A bound input belongs to a component with a resolver that looks up its run.
theorem Accepted.resolve_ne_filter_bar (h : Accepted repr d) (hb : b ∈ d.blocks)
    (hcomp : REGISTRY.lookup b.component = some comp) (hrefers : Refers b name g.id) :
    comp.resolve ≠ .filter_bar := by
  intro hr
  obtain ⟨s, hlookup, -⟩ := hrefers
  obtain ⟨inp, hin, -⟩ := h.input_of_entry hb hcomp (mem_of_lookup hlookup)
  rw [registry_filter_bar hcomp hr] at hin
  cases hin

theorem composite_refused {v : Json} (hc : composite v = true) (h : parameter v = .ok ()) :
    False := by
  obtain ⟨-, m, hm⟩ := composite_raises hc
  rw [hm] at h
  cases h

variable {run : Option RunRecord}

theorem Accepted.selected_plain (h : Accepted repr d)
    (hfind : d.filters.find? (·.type = "run_selector") = some f)
    (hc : composite f.default = true)
    (hrun : select_run d (others d f) sample_store = .ok run) : False := by
  have hid : selected_id d (others d f) sample_store = f.default :=
    (selected_id_eq h.nodup hfind).trans <| filter_value_self hc
  have ht := (composite_raises hc).left
  rw [← hid] at ht
  obtain ⟨hp, -⟩ := select_run_ok hrun ht
  rw [hid] at hp
  exact composite_refused hc hp

-- The run selector is given an id, and the store has a run of that id.
theorem Accepted.selected_some (h : Accepted repr d) (hf : f ∈ d.filters)
    (hsome : ∃ g ∈ d.filters, g.type = "run_selector") (hc : composite f.default = true)
    (hrun : select_run d (others d f) sample_store = .ok run) : run.isSome := by
  obtain ⟨g, hg, htype⟩ := hsome
  cases hfind : d.filters.find? (·.type = "run_selector") with
  | none   =>
    have hne := List.find?_eq_none.mp hfind g hg
    exact absurd (decide_eq_true htype) hne
  | some g =>
    have hg := List.mem_of_find?_eq_some hfind
    by_cases hid : g.id = f.id
    case pos =>
      obtain rfl := eq_of_id h.nodup hf hg hid
      exact (h.selected_plain hfind hc hrun).elim
    case neg =>
      have hid : selected_id d (others d f) sample_store = .str "r" :=
        (selected_id_eq h.nodup hfind).trans <| filter_value_other h.nodup hg hid
      have ht : (selected_id d (others d f) sample_store).truthy := by
        rw [hid]
        rfl
      rw [(select_run_ok hrun ht).right]
      rfl

theorem bound_some (hmay : MayRun d b)
    (hsome : (∃ g ∈ d.filters, g.type = "run_selector") → run.isSome)
    (hbind : resolve_bind repr (context d filters selection sample_store run) b.bind = .ok bind)
    {bound : Option RunRecord}
    (hbound : bound_run (context d filters selection sample_store run) bind = .ok bound) :
    bound.isSome := by
  by_cases ht : (get bind "run").truthy
  case pos =>
    have hp := bound_run_ok hbound ht
    unfold bound_run Store.get_run at hbound
    rw [if_pos ht, hp] at hbound
    cases hbound
    rfl
  case neg =>
    unfold bound_run at hbound
    rw [if_neg ht] at hbound
    cases hbound
    obtain hselector | ⟨s, hlookup, hplain, hne⟩ := hmay
    · exact hsome hselector
    · obtain ⟨w, hw, hresolve⟩ := lookup_resolve_bind hbind hlookup
      rw [resolve_value_plain hplain] at hresolve
      cases hresolve
      unfold get at ht
      rw [hw] at ht
      exact absurd (by simpa [Json.truthy] using hne) ht

-- The driver refuses a list or an object as the id that is looked up.
theorem Accepted.not_ok (h : Accepted repr d) (hf : f ∈ d.filters) (hconsulted : Consulted d f)
    (hc : composite f.default = true) {resolved : ResolvedDashboard} :
    resolve_valid repr d (others d f) [] sample_store ≠ .ok resolved := by
  intro hok
  obtain ⟨run, hrun, hblocks⟩ := resolve_valid_ok hok
  have hctx :
      ContextOf d sample_store (others d f) [] (context d (others d f) [] sample_store run) :=
    context_of hrun
  cases hconsulted with
  | selected hfind                => exact h.selected_plain hfind hc hrun
  | run hb hrefers                =>
    obtain ⟨comp, hchecked⟩ := h.checked _ hb
    obtain ⟨position, r, hr⟩ := hblocks _ hb
    obtain ⟨bind, p, hbind, hpayload⟩ := resolve_block_ok hchecked.component hr
    have hne := h.resolve_ne_filter_bar hb hchecked.component hrefers
    obtain ⟨bound, hbound⟩ := payload_ok hpayload hne
    have hget := (get_of_refers hctx h.nodup hf hrefers hbind).trans (filter_value_self hc)
    have hp := bound_run_ok hbound (hget ▸ (composite_raises hc).left)
    exact composite_refused hc (hget ▸ hp)
  | case hb htrace hrefers hmay =>
    obtain ⟨comp, hchecked⟩ := h.checked _ hb
    obtain ⟨position, r, hr⟩ := hblocks _ hb
    obtain ⟨bind, p, hbind, hpayload⟩ := resolve_block_ok hchecked.component hr
    have hne := h.resolve_ne_filter_bar hb hchecked.component hrefers
    obtain ⟨bound, hbound⟩ := payload_ok hpayload hne
    have hsome := bound_some hmay
      (fun hselector => h.selected_some hf hselector hc hrun) hbind hbound
    obtain ⟨run', rfl⟩ := Option.isSome_iff_exists.mp hsome
    have hget := (get_of_refers hctx h.nodup hf hrefers hbind).trans (filter_value_self hc)
    rw [hchecked.component] at htrace
    have hresolver : comp.resolve = .trace_evidence := by simpa using htrace
    unfold ComponentSpec.payload at hpayload
    rw [hresolver] at hpayload
    have hp := resolve_trace_evidence_ok hpayload hbound (hget ▸ (composite_raises hc).left)
    exact composite_refused hc (hget ▸ hp)

end Defaults

section Soundness

variable {repr : Json → String} {d : DashboardDefinition}

theorem resolve_definition_eq {filters selection : List (String × Json)} {store : Store}
    (h : validate_definition repr d = .ok ()) :
    resolve_definition repr d filters selection store =
      resolve_valid repr d filters selection store := by
  unfold resolve_definition
  rw [h]

theorem inputs_eq {b : BlockDef} {comp : ComponentSpec}
    (hcomp : REGISTRY.lookup b.component = some comp) : b.inputs = comp.inputs := by
  unfold BlockDef.inputs
  rw [hcomp]
  rfl

theorem Accepted.sound (h : Accepted repr d) (hvalid : validate_definition repr d = .ok ())
    (hplain : Plain d) : Sound d repr where
  required := by
    intro b hb inp hin hrequired
    obtain ⟨comp, hchecked⟩ := h.checked b hb
    have hcomp := hchecked.component
    have hin' := inputs_eq hcomp ▸ hin
    obtain ⟨v, hv⟩ := h.lookup_of_required hb hcomp hin' hrequired
    have hne : v ≠ .null := by
      rintro rfl
      exact hplain.required b hb inp hin hrequired hv
    exact ⟨v, hv, hne, h.fits hb hcomp hin' hv hne⟩
  components := by
    intro b hb
    obtain ⟨comp, hchecked⟩ := h.checked b hb
    exact Option.isSome_of_eq_some hchecked.component
  references := by
    intro b hb entry hentry s hs hdollar
    obtain ⟨name, v⟩ := entry
    obtain rfl : v = .str s := hs
    obtain ⟨comp, hchecked⟩ := h.checked b hb
    exact h.reference hb hchecked.component hentry hdollar
  evaluates := by
    intro store filters selection hfilters hselection e he
    rw [resolve_definition_eq hvalid] at he
    obtain ⟨f, hf, hconsulted, -, ht, hp⟩ := h.valid_error hfilters hselection he
    exact not_composite (hplain.defaults f hf hconsulted) ht hp

theorem Accepted.plain (h : Accepted repr d) (hvalid : validate_definition repr d = .ok ())
    (hsound : Sound d repr) : Plain d where
  required := by
    intro b hb inp hin hrequired hnull
    obtain ⟨v, hv, hne, -⟩ := hsound.required b hb inp hin hrequired
    exact hne <| Option.some_inj.mp <| hv.symm.trans hnull
  defaults := by
    intro f hf hconsulted
    by_contra hc
    rw [Bool.not_eq_false] at hc
    cases hresolve : resolve_valid repr d (others d f) [] sample_store with
    | ok resolved => exact h.not_ok hf hconsulted hc hresolve
    | error e     =>
      have hselection : Texts [] := by
        intro entry hentry
        cases hentry
      -- The one filter that the request leaves out is the only one whose default can be refused.
      obtain ⟨g, hg, -, hget, -, hp⟩ := h.valid_error texts_others hselection hresolve
      have hid : g.id = f.id := by
        by_contra hid
        rw [get_others h.nodup hg hid] at hget
        cases hget
      obtain rfl := eq_of_id h.nodup hf hg hid
      obtain ⟨-, m, hm⟩ := composite_raises hc
      rw [hm] at hp
      cases hp
      rw [← resolve_definition_eq hvalid] at hresolve
      have hfalse := hsound.evaluates _ _ _ texts_others hselection _ hresolve
      cases hfalse

theorem definition_sound_iff (h : validate_definition repr d = .ok ()) :
    Sound d repr ↔ Plain d :=
  ⟨(accepted h).plain h, (accepted h).sound h⟩

theorem default_definition_plain : Plain DEFAULT_DEFINITION where
  required := by decide
  defaults := by
    intro f hf _
    have hall : ∀ f ∈ DEFAULT_DEFINITION.filters, composite f.default = false := by decide
    exact hall f hf

-- No text of a value is shown where there is no problem.
theorem default_definition_sound : Sound DEFAULT_DEFINITION Json.type_name :=
  (definition_sound_iff (by decide +kernel)).mpr default_definition_plain

-- `inp.name not in block.bind` does not hold of an input that is bound to null.
def null_run : DashboardDefinition where
  version := 3
  name    := "Runs"
  blocks  := [⟨"run_table", 12, [("run", .null)], by decide⟩]

theorem null_run_unsound :
    ¬∀ (repr : Json → String) (d : DashboardDefinition),
      validate_definition repr d = .ok () → Sound d repr := by
  intro h
  have hsound := h Json.type_name null_run <| by decide +kernel
  obtain ⟨v, hv, hne, -⟩ := hsound.required _ (.head _) run_input (.head _) rfl
  exact hne <| Option.some_inj.mp hv.symm

end Soundness

end Dashboard
