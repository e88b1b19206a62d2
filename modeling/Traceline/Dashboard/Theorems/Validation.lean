import Traceline.Dashboard.Resolve

-- What the validation has checked of a definition that it accepts.
namespace Dashboard

def BlockDef.inputs (block : BlockDef) : List InputSpec :=
  (REGISTRY.lookup block.component).elim [] ComponentSpec.inputs

-- A reference of this type satisfies an input of that type.
def BindingType.Satisfies (t : BindingType) : InputType → Prop
  | .boolean                       => t = .boolean
  | .number                        => t = .number
  | .string                        => string_like t = true
  | .run_id                        => t = .run_id
  | .case_id                       => t = .case_id
  | .metric_id                     => t = .metric_id
  | .enum | .selection_source      => False

section Statements

variable (d : DashboardDefinition)

-- A block gives a selection of this type its name.
def Published (name : String) (t : BindingType) : Prop :=
  ∃ b ∈ d.blocks, ∃ comp, REGISTRY.lookup b.component = some comp ∧ ∃ inp ∈ comp.inputs,
    inp.type = .selection_source ∧ b.bind.lookup inp.name = some (.str name) ∧
    comp.selection_type.getD .any = t

-- What a reference stands for, which there is.
inductive RefType : RefKind → String → BindingType → Prop
  | filters : f ∈ d.filters → FILTER_TYPES.lookup f.type = some t → RefType .filters f.id t
  | selection : Published d name t → RefType .selection name t
  | run : RUN_FIELDS.lookup name = some t → RefType .run name t

-- A value of the type that an input declares.
inductive Fits (inp : InputSpec) : Json → Prop
  | text : dollar s = false → BindingType.string.Satisfies inp.type → Fits inp (.str s)
  | id : dollar s = false → (id_type inp.type).isSome → Fits inp (.str s)
  | choice : inp.type = .enum → dollar s = false → s ∈ inp.values → Fits inp (.str s)
  | source : inp.type = .selection_source → dollar s = false → s ≠ "" → Fits inp (.str s)
  | bool : inp.type = .boolean → Fits inp (.bool b)
  | int : inp.type = .number → Fits inp (.int n)
  | float : inp.type = .number → Fits inp (.float x)
  | ref : binding s = some (kind, name) → RefType d kind name t → t.Satisfies inp.type →
    Fits inp (.str s)

end Statements

section Lookup

variable {β : Type} {l : List (String × β)} {k : String} {v : β}

theorem mem_of_lookup (h : l.lookup k = some v) : (k, v) ∈ l := by
  obtain ⟨l₁, l₂, rfl, -⟩ := List.lookup_eq_some_iff.mp h
  exact List.mem_append_right _ <| .head _

theorem lookup_of_mem (hn : (l.map (·.1)).Nodup) (h : (k, v) ∈ l) : l.lookup k = some v := by
  induction l with
  | nil          => cases h
  | cons entry l ih =>
    obtain ⟨hnew, hn⟩ := List.nodup_cons.mp hn
    obtain rfl | h := List.mem_cons.mp h
    · exact List.lookup_cons_self
    · have hne : k ≠ entry.1 := fun hk => hnew (List.mem_map.mpr ⟨_, h, hk⟩)
      rw [List.lookup_cons, beq_eq_false_iff_ne.mpr hne]
      exact ih hn h

end Lookup

section Registry

variable {component : String} {comp : ComponentSpec} {inp : InputSpec}

theorem registry_find (h : REGISTRY.lookup component = some comp) (hin : inp ∈ comp.inputs) :
    comp.inputs.find? (·.name = inp.name) = some inp := by
  have hall : ∀ e ∈ REGISTRY, ∀ inp ∈ e.2.inputs,
      e.2.inputs.find? (·.name = inp.name) = some inp := by decide
  exact hall _ (mem_of_lookup h) inp hin

theorem registry_run (h : REGISTRY.lookup component = some comp)
    (hr : comp.resolve ≠ .filter_bar) : run_input ∈ comp.inputs := by
  have hall : ∀ e ∈ REGISTRY, e.2.resolve ≠ .filter_bar → run_input ∈ e.2.inputs := by decide
  exact hall _ (mem_of_lookup h) hr

theorem registry_filter_bar (h : REGISTRY.lookup component = some comp)
    (hr : comp.resolve = .filter_bar) : comp.inputs = [] := by
  have hall : ∀ e ∈ REGISTRY, e.2.resolve = .filter_bar → e.2.inputs = [] := by decide
  exact hall _ (mem_of_lookup h) hr

-- What `_resolve_metric_summary` subscripts, it has as a required input.
theorem registry_metric_summary (h : REGISTRY.lookup component = some comp)
    (hr : comp.resolve = .metric_summary) {name : String} (hname : name ∈ ["metric", "stat"]) :
    ∃ inp ∈ comp.inputs, inp.name = name ∧ inp.required := by
  have hall : ∀ e ∈ REGISTRY, e.2.resolve = .metric_summary → ∀ name ∈ ["metric", "stat"],
      ∃ inp ∈ e.2.inputs, inp.name = name ∧ inp.required := by decide
  exact hall _ (mem_of_lookup h) hr name hname

theorem registry_case (h : REGISTRY.lookup component = some comp)
    (hr : comp.resolve = .trace_evidence) :
    ∃ inp ∈ comp.inputs, inp.name = "case" ∧ inp.required ∧ (id_type inp.type).isSome := by
  have hall : ∀ e ∈ REGISTRY, e.2.resolve = .trace_evidence →
      ∃ inp ∈ e.2.inputs, inp.name = "case" ∧ inp.required ∧ (id_type inp.type).isSome := by decide
  exact hall _ (mem_of_lookup h) hr

theorem registry_selection (h : REGISTRY.lookup component = some comp) (hin : inp ∈ comp.inputs)
    (ht : inp.type = .selection_source) : comp.selection_type = some .case_id := by
  have hall : ∀ e ∈ REGISTRY, ∀ inp ∈ e.2.inputs, inp.type = .selection_source →
      e.2.selection_type = some .case_id := by decide
  exact hall _ (mem_of_lookup h) inp hin ht

theorem filter_type_run (h : FILTER_TYPES.lookup component = some .run_id) :
    component = "run_selector" := by
  have hall : ∀ e ∈ FILTER_TYPES, e.2 = .run_id → e.1 = "run_selector" := by decide
  exact hall _ (mem_of_lookup h) rfl

end Registry

section Validated

variable {repr : Json → String} {d : DashboardDefinition} {filters : List FilterDef}
variable {selection_types : List (String × BindingType)} {blocks : List BlockDef} {b : BlockDef}
variable {comp : ComponentSpec} {inp : InputSpec} {columns : Int} {i : ℕ} {v : Json} {s : String}

theorem check_filters_nil {seen : List String} (h : check_filters repr i seen filters = []) :
    (∀ f ∈ filters, f.id ∉ seen) ∧ (filters.map (·.id)).Nodup ∧
    ∀ f ∈ filters, (FILTER_TYPES.lookup f.type).isSome := by
  induction filters generalizing i seen with
  | nil               => simp
  | cons f filters ih =>
    unfold check_filters at h
    dsimp only at h
    split at h
    case isTrue        => cases h
    case isFalse hseen =>
      obtain ⟨htype, hrest⟩ := List.append_eq_nil_iff.mp h
      obtain ⟨hnew, hnodup, htypes⟩ := ih hrest
      have hknown : (FILTER_TYPES.lookup f.type).isSome := by
        split at htype
        case isTrue       => cases htype
        case isFalse hsome => simpa [Option.isSome_iff_ne_none] using hsome
      refine ⟨?_, ?_, ?_⟩
      · intro g hg
        obtain rfl | hg := List.mem_cons.mp hg
        · exact hseen
        · exact fun hmem => hnew g hg (.tail _ hmem)
      · rw [List.map_cons, List.nodup_cons]
        refine ⟨fun hmem => ?_, hnodup⟩
        obtain ⟨g, hg, hid⟩ := List.mem_map.mp hmem
        exact hnew g hg (hid ▸ .head _)
      · intro g hg
        obtain rfl | hg := List.mem_cons.mp hg
        · exact hknown
        · exact htypes g hg

-- The selections known behind the inputs of a block.
theorem check_selections_mem {bfield name : String} {t : BindingType} {inputs : List InputSpec}
    (h : (name, t) ∈ (check_selections repr bfield b comp inputs selection_types).2) :
    (name, t) ∈ selection_types ∨ ∃ inp ∈ inputs, inp.type = .selection_source ∧
      selection_id b inp = some name ∧ comp.selection_type.getD .any = t := by
  induction inputs generalizing selection_types with
  | nil             => exact .inl h
  | cons inp inputs ih =>
    unfold check_selections at h
    split at h
    case isTrue  =>
      obtain h | ⟨inp', hin, h⟩ := ih h
      · exact .inl h
      · exact .inr ⟨inp', .tail _ hin, h⟩
    case isFalse htype =>
      split at h
      case h_1      =>
        obtain h | ⟨inp', hin, h⟩ := ih h
        · exact .inl h
        · exact .inr ⟨inp', .tail _ hin, h⟩
      case h_2 hraw =>
        obtain h | ⟨inp', hin, h⟩ := ih h
        · obtain h | h := List.mem_cons.mp h
          · cases h
            exact .inr ⟨inp, .head _, not_not.mp htype, hraw, rfl⟩
          · exact .inl h
        · exact .inr ⟨inp', .tail _ hin, h⟩

theorem check_selections_nil {bfield : String} {inputs : List InputSpec}
    (h : (check_selections repr bfield b comp inputs selection_types).1 = []) (hin : inp ∈ inputs)
    (ht : inp.type = .selection_source) : (selection_id b inp).isSome := by
  induction inputs generalizing selection_types with
  | nil                  => cases hin
  | cons inp' inputs ih =>
    unfold check_selections at h
    split at h
    case isTrue htype =>
      obtain rfl | hin := List.mem_cons.mp hin
      · exact absurd ht htype
      · exact ih h hin
    case isFalse =>
      split at h
      case h_1      => cases h
      case h_2 hraw =>
        obtain rfl | hin := List.mem_cons.mp hin
        · rw [hraw]
          rfl
        · exact ih (List.append_eq_nil_iff.mp h).right hin

theorem selection_id_eq {name : String} (h : selection_id b inp = some name) :
    b.bind.lookup inp.name = some (.str name) ∧ dollar name = false ∧ name ≠ "" := by
  unfold selection_id at h
  split at h
  case h_1 hlookup =>
    split at h
    case isTrue         => cases h
    case isFalse hplain =>
      obtain rfl := Option.some_inj.mp h
      rw [Bool.or_eq_true, not_or] at hplain
      exact ⟨hlookup, by simpa using hplain.right, by simpa using hplain.left⟩
  case h_2 => cases h

-- What the pass over the blocks has checked of each of them.
structure Checked (repr : Json → String) (columns : Int) (b : BlockDef) (comp : ComponentSpec) :
    Prop where
  component  : REGISTRY.lookup b.component = some comp
  inputs     : ∃ bfield, check_component repr columns bfield b comp = []
  selections : ∀ inp ∈ comp.inputs, inp.type = .selection_source → (selection_id b inp).isSome

theorem check_blocks_nil (h : (check_blocks repr columns i blocks selection_types).1 = [])
    (hb : b ∈ blocks) : ∃ comp, Checked repr columns b comp := by
  induction blocks generalizing i selection_types with
  | nil                  => cases hb
  | cons block blocks ih =>
    unfold check_blocks at h
    dsimp only at h
    split at h
    case h_1            => cases h
    case h_2 comp hcomp =>
      obtain ⟨hhead, hrest⟩ := List.append_eq_nil_iff.mp h
      obtain ⟨hcomponent, hselections⟩ := List.append_eq_nil_iff.mp hhead
      obtain rfl | hb := List.mem_cons.mp hb
      · exact ⟨comp, hcomp, ⟨_, hcomponent⟩, fun inp => check_selections_nil hselections⟩
      · exact ih hrest hb

theorem check_blocks_mem {name : String} {t : BindingType}
    (h : (name, t) ∈ (check_blocks repr columns i blocks selection_types).2) :
    (name, t) ∈ selection_types ∨ ∃ b ∈ blocks, ∃ comp, REGISTRY.lookup b.component = some comp ∧
      ∃ inp ∈ comp.inputs, inp.type = .selection_source ∧
        b.bind.lookup inp.name = some (.str name) ∧ comp.selection_type.getD .any = t := by
  induction blocks generalizing i selection_types with
  | nil                  => exact .inl h
  | cons block blocks ih =>
    unfold check_blocks at h
    dsimp only at h
    split at h
    case h_1            =>
      obtain h | ⟨b, hb, h⟩ := ih h
      · exact .inl h
      · exact .inr ⟨b, .tail _ hb, h⟩
    case h_2 comp hcomp =>
      obtain h | ⟨b, hb, h⟩ := ih h
      · obtain h | ⟨inp, hin, htype, hid, ht⟩ := check_selections_mem h
        · exact .inl h
        · exact .inr ⟨block, .head _, comp, hcomp, inp, hin, htype, (selection_id_eq hid).left, ht⟩
      · exact .inr ⟨b, .tail _ hb, h⟩

theorem check_binds_nil (h : check_binds repr filters selection_types i blocks = [])
    (hb : b ∈ blocks) (hcomp : REGISTRY.lookup b.component = some comp) :
    ∃ bfield, ∀ entry ∈ b.bind,
      check_bind repr filters selection_types bfield comp entry.1 entry.2 = [] := by
  induction blocks generalizing i with
  | nil                  => cases hb
  | cons block blocks ih =>
    unfold check_binds at h
    obtain ⟨hhead, hrest⟩ := List.append_eq_nil_iff.mp h
    obtain rfl | hb := List.mem_cons.mp hb
    · rw [hcomp] at hhead
      exact ⟨_, fun entry hentry => List.flatMap_eq_nil_iff.mp hhead entry hentry⟩
    · exact ih hrest hb

-- What the validation of a whole definition has found.
structure Accepted (repr : Json → String) (d : DashboardDefinition) : Prop where
  nodup   : (d.filters.map (·.id)).Nodup
  known   : ∀ f ∈ d.filters, (FILTER_TYPES.lookup f.type).isSome
  checked : ∀ b ∈ d.blocks, ∃ comp, Checked repr d.layout.columns b comp
  bound   : ∃ selection_types,
    (∀ name t, selection_types.lookup name = some t → Published d name t) ∧
    ∀ b ∈ d.blocks, ∀ comp, REGISTRY.lookup b.component = some comp →
      ∃ bfield, ∀ entry ∈ b.bind,
        check_bind repr d.filters selection_types bfield comp entry.1 entry.2 = []

theorem accepted (h : validate_definition repr d = .ok ()) : Accepted repr d := by
  unfold validate_definition at h
  split at h
  case isFalse    => cases h
  case isTrue hnil =>
    unfold problems at hnil
    dsimp only at hnil
    obtain ⟨hnil, hbinds⟩ := List.append_eq_nil_iff.mp hnil
    obtain ⟨hnil, hblocks⟩ := List.append_eq_nil_iff.mp hnil
    obtain ⟨-, hfilters⟩ := List.append_eq_nil_iff.mp hnil
    obtain ⟨-, hnodup, hknown⟩ := check_filters_nil hfilters
    refine ⟨hnodup, hknown, fun b hb => check_blocks_nil hblocks hb, _, ?_,
      fun b hb comp hcomp => check_binds_nil hbinds hb hcomp⟩
    intro name t hlookup
    obtain h | h := check_blocks_mem (mem_of_lookup hlookup)
    · cases h
    · exact h

section Typing

variable {btype : BindingType} {literal : Option Json} {kind : RefKind} {name : String}

theorem ref_type (hpublished : ∀ name t, selection_types.lookup name = some t → Published d name t)
    (hknown : ∀ f ∈ d.filters, (FILTER_TYPES.lookup f.type).isSome)
    (hs : binding s = some (kind, name))
    (h : binding_type_of repr d.filters selection_types (.str s) = .ok (btype, literal)) :
    literal = none ∧ RefType d kind name btype := by
  unfold binding_type_of at h
  dsimp only at h
  rw [hs] at h
  cases kind with
  | filters   =>
    dsimp only at h
    split at h
    case h_1         => cases h
    case h_2 f hfind =>
      cases h
      have hf := List.mem_of_find?_eq_some hfind
      obtain rfl : f.id = name := by simpa using List.find?_some hfind
      obtain ⟨t, ht⟩ := Option.isSome_iff_exists.mp (hknown f hf)
      rw [ht]
      exact ⟨rfl, .filters hf ht⟩
  | selection =>
    dsimp only at h
    split at h
    case h_1           => cases h
    case h_2 t hlookup =>
      cases h
      exact ⟨rfl, .selection (hpublished _ _ hlookup)⟩
  | run       =>
    dsimp only at h
    split at h
    case h_1           => cases h
    case h_2 t hlookup =>
      cases h
      exact ⟨rfl, .run hlookup⟩

theorem literal_type (hs : binding s = none)
    (h : binding_type_of repr filters selection_types (.str s) = .ok (btype, literal)) :
    dollar s = false ∧ btype = .string ∧ literal = some (.str s) := by
  unfold binding_type_of at h
  dsimp only at h
  rw [hs] at h
  dsimp only at h
  split at h
  case isTrue        => cases h
  case isFalse hplain =>
    cases h
    exact ⟨by simpa using hplain, rfl, rfl⟩

-- Without a literal, only the type itself decides.
theorem satisfies_of_check (h : check_input repr inp btype none = none) :
    btype.Satisfies inp.type := by
  unfold check_input at h
  unfold BindingType.Satisfies
  cases ht : inp.type <;> simp_all [id_type]

theorem fits_of_literal (hs : dollar s = false)
    (h : check_input repr inp .string (some (.str s)) = none) : Fits d inp (.str s) := by
  unfold check_input at h
  cases ht : inp.type with
  | enum => exact .choice ht hs (by simp_all)
  | string => exact .text hs (by rw [ht]; rfl)
  | run_id | case_id | metric_id => exact .id hs (by rw [ht]; rfl)
  | boolean | number | selection_source => simp_all

theorem number_of_check (h : check_input repr inp .number literal = none) :
    inp.type = .number := by
  unfold check_input at h
  cases ht : inp.type <;> simp_all [id_type, string_like]

theorem boolean_of_check (h : check_input repr inp .boolean literal = none) :
    inp.type = .boolean := by
  unfold check_input at h
  cases ht : inp.type <;> simp_all [id_type, string_like]

-- The rules of `_binding_type_of` and `_check_input` in one.
theorem fits_of_check
    (hpublished : ∀ name t, selection_types.lookup name = some t → Published d name t)
    (hknown : ∀ f ∈ d.filters, (FILTER_TYPES.lookup f.type).isSome) (hv : v ≠ .null)
    (ht : binding_type_of repr d.filters selection_types v = .ok (btype, literal))
    (hc : check_input repr inp btype literal = none) : Fits d inp v := by
  cases v with
  | str s =>
    cases hs : binding s with
    | none     =>
      obtain ⟨hplain, rfl, rfl⟩ := literal_type hs ht
      exact fits_of_literal hplain hc
    | some ref =>
      obtain ⟨rfl, href⟩ := ref_type hpublished hknown hs ht
      exact .ref hs href (satisfies_of_check hc)
  | bool b  =>
    cases ht
    exact .bool (boolean_of_check hc)
  | int n   =>
    cases ht
    exact .int (number_of_check hc)
  | float x =>
    cases ht
    exact .float (number_of_check hc)
  | null    => exact absurd rfl hv
  | arr xs  => cases ht
  | obj kvs => cases ht

end Typing

namespace Accepted

variable {name : String} (h : Accepted repr d) (hb : b ∈ d.blocks)
variable (hcomp : REGISTRY.lookup b.component = some comp)

include h hb hcomp

theorem of_checked : Checked repr d.layout.columns b comp := by
  obtain ⟨comp', hchecked⟩ := h.checked b hb
  obtain rfl := Option.some_inj.mp (hchecked.component.symm.trans hcomp)
  exact hchecked

-- Only declared inputs are bound.
theorem input_of_entry (hentry : (name, v) ∈ b.bind) : ∃ inp ∈ comp.inputs, inp.name = name := by
  obtain ⟨bfield, hinputs⟩ := (h.of_checked hb hcomp).inputs
  obtain ⟨hinputs, -⟩ := List.append_eq_nil_iff.mp hinputs
  obtain ⟨-, hunknown⟩ := List.append_eq_nil_iff.mp hinputs
  have hnil := List.flatMap_eq_nil_iff.mp hunknown _ hentry
  dsimp only at hnil
  split at hnil
  case isTrue       => cases hnil
  case isFalse hall => simpa using hall

theorem lookup_of_required (hin : inp ∈ comp.inputs) (hrequired : inp.required = true) :
    ∃ v, b.bind.lookup inp.name = some v := by
  obtain ⟨bfield, hinputs⟩ := (h.of_checked hb hcomp).inputs
  obtain ⟨-, hmissing⟩ := List.append_eq_nil_iff.mp hinputs
  have hnil := List.flatMap_eq_nil_iff.mp hmissing _ hin
  split at hnil
  case isTrue        => cases hnil
  case isFalse hsome =>
    rw [hrequired, Bool.true_and, Option.isNone_iff_eq_none] at hsome
    exact Option.ne_none_iff_exists'.mp hsome

theorem fits (hin : inp ∈ comp.inputs) (hlookup : b.bind.lookup inp.name = some v)
    (hv : v ≠ .null) : Fits d inp v := by
  by_cases htype : inp.type = .selection_source
  case pos =>
    obtain ⟨s, hs⟩ :=
      Option.isSome_iff_exists.mp <| (h.of_checked hb hcomp).selections inp hin htype
    obtain ⟨hlookup', hplain, hne⟩ := selection_id_eq hs
    obtain rfl := Option.some_inj.mp (hlookup.symm.trans hlookup')
    exact .source htype hplain hne
  case neg =>
    obtain ⟨selection_types, hpublished, hbound⟩ := h.bound
    obtain ⟨bfield, hbinds⟩ := hbound b hb comp hcomp
    have hnil := hbinds _ (mem_of_lookup hlookup)
    unfold check_bind at hnil
    rw [registry_find hcomp hin] at hnil
    dsimp only at hnil
    rw [if_neg (by simp [htype, hv])] at hnil
    split at hnil
    case h_1                    => cases hnil
    case h_2 btype literal hok =>
      split at hnil
      case h_1 hnone => exact fits_of_check hpublished h.known hv hok hnone
      case h_2       => cases hnil

theorem reference (hentry : (name, .str s) ∈ b.bind) (hs : dollar s = true) :
    ∃ kind name t, binding s = some (kind, name) ∧ RefType d kind name t := by
  obtain ⟨inp, hin, rfl⟩ := h.input_of_entry hb hcomp hentry
  have hfits := h.fits hb hcomp hin (lookup_of_mem b.bind_keys hentry) (by simp)
  cases hfits with
  | ref hbinding href _ => exact ⟨_, _, _, hbinding, href⟩
  | text hplain | id hplain | choice _ hplain | source _ hplain =>
    rw [hplain] at hs
    cases hs

end Accepted

end Validated

end Dashboard
