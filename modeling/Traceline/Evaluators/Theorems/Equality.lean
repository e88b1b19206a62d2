import Mathlib.Logic.Relation
import Traceline.Evaluators.Score
import Traceline.Library.Forall2
import Traceline.Predicates.Evaluate

namespace Json

mutual

-- A value of JSON: the keys of an object are distinct, and there is no NaN.
def proper : Json → Bool
  | .float x => !x.isNaN
  | .arr xs  => properList xs
  | .obj kvs => (kvs.map (·.1)).Nodup && properFields kvs
  | .null | .bool _ | .int _ | .str _ => true

def properList : List Json → Bool
  | []      => true
  | x :: xs => proper x && properList xs

def properFields : List (String × Json) → Bool
  | []            => true
  | (_, x) :: kvs => proper x && properFields kvs

end

variable {a b c : Json} {xs ys : List Json} {kvs kvs' : List (String × Json)} {k : String}

theorem properList_iff : properList xs = true ↔ ∀ x ∈ xs, x.proper := by
  induction xs with
  | nil          => simp [properList]
  | cons x xs ih => rw [properList, Bool.and_eq_true, ih, List.forall_mem_cons]

theorem properFields_iff : properFields kvs = true ↔ ∀ kv ∈ kvs, kv.2.proper := by
  induction kvs with
  | nil           => simp [properFields]
  | cons kv kvs ih => rw [properFields, Bool.and_eq_true, ih, List.forall_mem_cons]

theorem proper_arr : (Json.arr xs).proper = true ↔ ∀ x ∈ xs, x.proper := by
  rw [proper, properList_iff]

theorem proper_obj :
    (Json.obj kvs).proper = true ↔ (kvs.map (·.1)).Nodup ∧ ∀ kv ∈ kvs, kv.2.proper := by
  rw [proper, Bool.and_eq_true, properFields_iff, decide_eq_true_iff]

-- The number that a value stands for, where a bool stands for one too.
def numeric? : Json → Option PyFloat
  | .bool b => some (.finite b.toInt)
  | j       => j.number?

theorem pyEqList_iff : pyEqList xs ys = true ↔ List.Forall₂ (fun x y => x.pyEq y) xs ys := by
  induction xs generalizing ys with
  | nil          => cases ys <;> simp [pyEqList]
  | cons x xs ih =>
    cases ys with
    | nil       => simp [pyEqList]
    | cons y ys => rw [pyEqList, Bool.and_eq_true, ih, List.forall₂_cons]

theorem pyEqFields_iff : pyEqFields kvs kvs' = true ↔
    ∀ kv ∈ kvs, ∃ y, kvs'.lookup kv.1 = some y ∧ kv.2.pyEq y := by
  induction kvs with
  | nil            => simp [pyEqFields]
  | cons kv kvs ih =>
    obtain ⟨k, x⟩ := kv
    rw [pyEqFields, Bool.and_eq_true, ih, List.forall_mem_cons]
    refine and_congr_left fun _ => ?_
    cases kvs'.lookup k <;> simp

theorem pyEq_arr : (Json.arr xs).pyEq (.arr ys) = true ↔ List.Forall₂ (fun x y => x.pyEq y) xs ys := by
  rw [pyEq, pyEqList_iff]

theorem pyEq_obj : (Json.obj kvs).pyEq (.obj kvs') = true ↔ kvs.length = kvs'.length ∧
    ∀ kv ∈ kvs, ∃ y, kvs'.lookup kv.1 = some y ∧ kv.2.pyEq y := by
  rw [pyEq, Bool.and_eq_true, pyEqFields_iff, decide_eq_true_iff]

theorem pyEq_numeric {x y : PyFloat} (ha : a.numeric? = some x) (hb : b.numeric? = some y) :
    a.pyEq b = true ↔ x = y ∧ x.isNaN = false := by
  have hfinite : ∀ q r : ℚ, PyFloat.finite q = .finite r ∧ (PyFloat.finite q).isNaN = false ↔
      q = r := fun q r => by simp [PyFloat.isNaN]
  have hcomm : ∀ (x : PyFloat) (q : ℚ), x.eq (.finite q) = true ↔
      PyFloat.finite q = x ∧ (PyFloat.finite q).isNaN = false := by
    intro x q
    rw [PyFloat.eq_iff, eq_comm]
    exact and_congr_right fun h => by rw [← h]
  cases a <;> cases ha <;> cases b <;> cases hb <;>
    simp only [pyEq, decide_eq_true_iff, hfinite, Int.cast_inj, hcomm, PyFloat.eq_iff]
  case bool.refl.bool.refl x y => cases x <;> cases y <;> decide
  all_goals rw [← hcomm, PyFloat.eq_iff]

-- What two values that are equal for Python are.
inductive Equal : Json → Json → Prop
  | null : Equal .null .null
  | str {s} : Equal (.str s) (.str s)
  | numeric {u v x} : u.numeric? = some x → v.numeric? = some x → x.isNaN = false → Equal u v
  | arr {us vs} : List.Forall₂ (fun x y => x.pyEq y) us vs → Equal (.arr us) (.arr vs)
  | obj {us vs} : us.length = vs.length →
    (∀ kv ∈ us, ∃ y, vs.lookup kv.1 = some y ∧ kv.2.pyEq y) → Equal (.obj us) (.obj vs)

theorem equal_of_pyEq (h : a.pyEq b) : Equal a b := by
  have hnumeric : ∀ {x y}, a.numeric? = some x → b.numeric? = some y → Equal a b := by
    intro x y hx hy
    obtain ⟨rfl, hnan⟩ := (pyEq_numeric hx hy).mp h
    exact .numeric hx hy hnan
  cases a <;> cases b
  case null.null        => exact .null
  case str.str s t      =>
    rw [pyEq, decide_eq_true_iff] at h
    rw [h]
    exact .str
  case arr.arr xs ys    => exact .arr <| pyEq_arr.mp h
  case obj.obj kvs kvs' => exact (pyEq_obj.mp h).elim .obj
  all_goals
    first
    | exact hnumeric rfl rfl
    | simp [pyEq] at h

theorem Equal.pyEq (h : Equal a b) : a.pyEq b := by
  cases h with
  | null              => rw [Json.pyEq]
  | str               => rw [Json.pyEq, decide_eq_true_iff]
  | numeric hx hy hn  => exact (pyEq_numeric hx hy).mpr ⟨rfl, hn⟩
  | arr h             => exact pyEq_arr.mpr h
  | obj hlength h     => exact pyEq_obj.mpr ⟨hlength, h⟩

theorem lookup_of_mem {kv : String × Json} (h : (kvs.map (·.1)).Nodup) (hmem : kv ∈ kvs) :
    kvs.lookup kv.1 = some kv.2 := by
  induction kvs with
  | nil            => cases hmem
  | cons kw kvs ih =>
    rw [List.map_cons, List.nodup_cons] at h
    rcases List.mem_cons.mp hmem with rfl | hmem
    · exact List.lookup_cons_self
    · have hne : (kv.1 == kw.1) = false := by
        rw [beq_eq_false_iff_ne]
        rintro he
        exact h.left <| he ▸ List.mem_map_of_mem hmem
      rw [List.lookup_cons, hne]
      exact ih h.right hmem

theorem mem_of_lookup {x : Json} (h : kvs.lookup k = some x) : (k, x) ∈ kvs := by
  obtain ⟨l, r, rfl, _⟩ := List.lookup_eq_some_iff.mp h
  simp

theorem pyEq_refl (h : a.proper) : a.pyEq a := by
  induction a using Json.induct with
  | null        => exact Equal.null.pyEq
  | bool b      => exact Equal.pyEq <| .numeric rfl rfl rfl
  | int n       => exact Equal.pyEq <| .numeric rfl rfl rfl
  | float x     =>
    rw [proper, Bool.not_eq_true'] at h
    exact Equal.pyEq <| .numeric rfl rfl h
  | str s       => exact Equal.str.pyEq
  | arr xs ih   =>
    refine pyEq_arr.mpr <| List.forall₂_same.mpr fun x hx => ih x hx <| proper_arr.mp h x hx
  | obj kvs ih  =>
    obtain ⟨hkeys, hvalues⟩ := proper_obj.mp h
    exact pyEq_obj.mpr ⟨rfl, fun kv hkv => ⟨kv.2, lookup_of_mem hkeys hkv, ih kv hkv <| hvalues kv hkv⟩⟩

-- As many distinct keys as there are in the other object are the same keys.
theorem mem_keys_of_mem (hk : (kvs.map (·.1)).Nodup) (hlength : kvs.length = kvs'.length)
    (h : ∀ kv ∈ kvs, ∃ y, kvs'.lookup kv.1 = some y) (hmem : k ∈ kvs'.map (·.1)) :
    k ∈ kvs.map (·.1) := by
  have hsub : kvs.map (·.1) ⊆ kvs'.map (·.1) := by
    intro k hk
    obtain ⟨kv, hkv, rfl⟩ := List.mem_map.mp hk
    obtain ⟨y, hy⟩ := h kv hkv
    exact List.mem_map.mpr ⟨_, mem_of_lookup hy, rfl⟩
  have hperm := (List.subperm_of_subset hk hsub).perm_of_length_le (by simp [hlength])
  exact hperm.mem_iff.mpr hmem

theorem pyEq_symm (ha : a.proper) (hb : b.proper) (h : a.pyEq b) : b.pyEq a := by
  induction a using Json.induct generalizing b with
  | null | str => cases equal_of_pyEq h <;> first | exact h | contradiction
  | arr xs ih  =>
    cases equal_of_pyEq h with
    | numeric hx => cases hx
    | arr hxs    =>
      refine pyEq_arr.mpr <| List.Forall₂.flip <| hxs.imp_of_mem fun x hx y hy => ?_
      exact ih x hx (proper_arr.mp ha x hx) (proper_arr.mp hb y hy)
  | obj kvs ih =>
    cases equal_of_pyEq h with
    | numeric hx       => cases hx
    | obj hlength hkvs =>
      obtain ⟨hkeys, hvalues⟩ := proper_obj.mp ha
      obtain ⟨hkeys', hvalues'⟩ := proper_obj.mp hb
      refine pyEq_obj.mpr ⟨hlength.symm, fun kv' hkv' => ?_⟩
      have hmem := mem_keys_of_mem hkeys hlength (fun kv hkv => (hkvs kv hkv).imp fun _ h => h.left)
        (List.mem_map_of_mem hkv')
      obtain ⟨kv, hkv, hk⟩ := List.mem_map.mp hmem
      obtain ⟨y, hy, he⟩ := hkvs kv hkv
      rw [hk, lookup_of_mem hkeys' hkv'] at hy
      cases hy
      exact ⟨kv.2, hk ▸ lookup_of_mem hkeys hkv, ih kv hkv (hvalues kv hkv) (hvalues' kv' hkv') he⟩
  | bool | int | float =>
    cases equal_of_pyEq h with
    | numeric hx hy hnan => exact Equal.pyEq <| .numeric hy hx hnan

theorem pyEq_trans (h : a.pyEq b) (h' : b.pyEq c) : a.pyEq c := by
  induction a using Json.induct generalizing b c with
  | null | str => cases equal_of_pyEq h <;> first | exact h' | contradiction
  | arr xs ih  =>
    cases equal_of_pyEq h with
    | numeric hx => cases hx
    | arr hxs    =>
      cases equal_of_pyEq h' with
      | numeric hy => cases hy
      | arr hys    => exact pyEq_arr.mpr <| hxs.comp_of_mem hys fun x hx _ _ => ih x hx
  | obj kvs ih =>
    cases equal_of_pyEq h with
    | numeric hx       => cases hx
    | obj hlength hkvs =>
      cases equal_of_pyEq h' with
      | numeric hy         => cases hy
      | obj hlength' hkvs' =>
        refine pyEq_obj.mpr ⟨hlength.trans hlength', fun kv hkv => ?_⟩
        obtain ⟨y, hy, he⟩ := hkvs kv hkv
        obtain ⟨z, hz, he'⟩ := hkvs' (kv.1, y) (mem_of_lookup hy)
        exact ⟨z, hz, ih kv hkv he he'⟩
  | bool | int | float =>
    cases equal_of_pyEq h with
    | numeric hx hy hnan =>
      cases equal_of_pyEq h' with
      | numeric hy' hz _ =>
        cases hy.symm.trans hy'
        exact Equal.pyEq <| .numeric hx hz hnan
      | null => cases hy
      | str  => cases hy
      | arr  => cases hy
      | obj  => cases hy

def isBool : Json → Bool
  | .bool _ => true
  | _       => false

-- `x` and `y` stand at the same position of `a` and `b`.
inductive Aligned : Json → Json → Json → Json → Prop
  | here {u v} : Aligned u v u v
  | elem {us vs : List Json} {i : ℕ} {u v x y} :
    us[i]? = some u → vs[i]? = some v → Aligned u v x y → Aligned (.arr us) (.arr vs) x y
  | field {us vs : List (String × Json)} {k u v x y} :
    us.lookup k = some u → vs.lookup k = some v → Aligned u v x y → Aligned (.obj us) (.obj vs) x y

-- At some position one of the values has a boolean and the other a number.
def Clash (a b : Json) : Prop :=
  ∃ x y, Aligned a b x y ∧ (x.isBool ∧ y.isNumber ∨ x.isNumber ∧ y.isBool)

inductive Child : Json → Json → Prop
  | elem {us u} : u ∈ us → Child (.arr us) u
  | field {us kv} : kv ∈ us → Child (.obj us) kv.2

-- `x` is somewhere strictly inside `a`.
def Inside : Json → Json → Prop :=
  Relation.TransGen Child

-- A boolean, or a number that Python takes for one.
def IsBit (j : Json) : Prop :=
  j.numeric? = some (.finite 0) ∨ j.numeric? = some (.finite 1)

variable {x y : Json}

theorem Clash.elem {us vs : List Json} {i : ℕ} (ha : us[i]? = some a) (hb : vs[i]? = some b)
    (h : Clash a b) : Clash (.arr us) (.arr vs) :=
  have ⟨x, y, hxy, hc⟩ := h
  ⟨x, y, .elem ha hb hxy, hc⟩

theorem Clash.field {us vs : List (String × Json)} (ha : us.lookup k = some a)
    (hb : vs.lookup k = some b) (h : Clash a b) : Clash (.obj us) (.obj vs) :=
  have ⟨x, y, hxy, hc⟩ := h
  ⟨x, y, .field ha hb hxy, hc⟩

-- Two values that Python takes to be equal are so at each position they share.
theorem Aligned.pyEq (h : Aligned a b x y) (he : a.pyEq b) :
    x.pyEq y ∧ ((x = a ∧ y = b) ∨ Inside a x) := by
  induction h with
  | here                              => exact ⟨he, .inl ⟨rfl, rfl⟩⟩
  | @elem us vs i u v x y hu hv _ ih  =>
    have hmem : u ∈ us := List.mem_of_getElem? hu
    have huv : u.pyEq v := by
      have hi : i < us.length := (List.getElem?_eq_some_iff.mp hu).choose
      obtain ⟨hlength, hall⟩ := List.forall₂_iff_get.mp <| pyEq_arr.mp he
      have hi' : i < vs.length := hlength ▸ hi
      have hget := hall i hi hi'
      rw [List.getElem?_eq_getElem hi, Option.some.injEq] at hu
      rw [List.getElem?_eq_getElem hi', Option.some.injEq] at hv
      rwa [List.get_eq_getElem, List.get_eq_getElem, hu, hv] at hget
    obtain ⟨hxy, ⟨rfl, rfl⟩ | hinside⟩ := ih huv
    · exact ⟨hxy, .inr <| .single <| .elem hmem⟩
    · exact ⟨hxy, .inr <| .head (.elem hmem) hinside⟩
  | @field us vs k u v x y hu hv _ ih =>
    have hmem := mem_of_lookup hu
    obtain ⟨w, hw, huw⟩ := (pyEq_obj.mp he).right _ hmem
    cases hw.symm.trans hv
    obtain ⟨hxy, ⟨rfl, rfl⟩ | hinside⟩ := ih huw
    · exact ⟨hxy, .inr <| .single <| .field hmem⟩
    · exact ⟨hxy, .inr <| .head (.field hmem) hinside⟩

theorem isBit_of_isBool (h : x.isBool) : x.IsBit := by
  cases x with
  | bool b =>
    cases b with
    | false => exact .inl rfl
    | true  => exact .inr rfl
  | _      => cases h

theorem IsBit.of_pyEq (hy : y.IsBit) (h : x.pyEq y) : x.IsBit := by
  have hnumeric : x.numeric? = y.numeric? := by
    cases equal_of_pyEq h with
    | numeric hx hy _   => exact hx.trans hy.symm
    | null | str        => rfl
    | arr h             => simp [numeric?, number?]
    | obj h _           => simp [numeric?, number?]
  exact hy.imp hnumeric.trans hnumeric.trans

-- A bit has an equal value of the other kind.
theorem IsBit.exists_clash (h : x.IsBit) : ∃ y, y.proper ∧ x.pyEq y ∧ Clash x y := by
  cases hx : x.isBool with
  | true  =>
    cases x with
    | bool b =>
      have hy : (Json.int b.toInt).numeric? = some (.finite b.toInt) := rfl
      exact ⟨.int b.toInt, rfl, (pyEq_numeric rfl hy).mpr ⟨rfl, rfl⟩, _, _, .here, .inl ⟨rfl, rfl⟩⟩
    | _      => cases hx
  | false =>
    have hnumber : x.isNumber := by
      cases x with
      | int n   => rfl
      | float f => rfl
      | bool b  => cases hx
      | _       => rcases h with h | h <;> cases h
    rcases h with h | h
    · exact ⟨.bool false, rfl, (pyEq_numeric h rfl).mpr ⟨rfl, rfl⟩, _, _, .here, .inr ⟨hnumber, rfl⟩⟩
    · exact ⟨.bool true, rfl, (pyEq_numeric h rfl).mpr ⟨rfl, rfl⟩, _, _, .here, .inr ⟨hnumber, rfl⟩⟩

-- An equal value in the place of a child makes an equal value.
theorem Child.exists_clash (hchild : Child a x) (ha : a.proper) (hy : y.proper)
    (h : x.pyEq y) (hclash : Clash x y) :
    ∃ b, b.proper ∧ a.pyEq b ∧ b.isBool = a.isBool ∧ Clash a b := by
  cases hchild with
  | @elem xs _ hx  =>
    obtain ⟨l, r, rfl⟩ := List.append_of_mem hx
    have hproper := proper_arr.mp ha
    have hsame : ∀ us ⊆ l ++ x :: r, List.Forall₂ (fun x y => x.pyEq y) us us := fun us hus =>
      List.forall₂_same.mpr fun u hu => pyEq_refl <| hproper u <| hus hu
    refine ⟨.arr (l ++ y :: r), proper_arr.mpr fun z hz => ?_, pyEq_arr.mpr ?_, rfl, ?_⟩
    · rcases List.mem_append.mp hz with hz | hz
      · exact hproper z <| List.mem_append_left _ hz
      · rcases List.mem_cons.mp hz with rfl | hz
        · exact hy
        · exact hproper z <| List.mem_append_right _ <| .tail _ hz
    · exact List.rel_append (hsame l <| List.subset_append_left _ _) <| .cons h <| hsame r <|
        List.subset_append_of_subset_right _ <| List.subset_cons_self _ _
    · exact hclash.elem (i := l.length) (by simp) (by simp)
  | @field kvs kv hkv =>
    obtain ⟨k, x⟩ := kv
    obtain ⟨l, r, rfl⟩ := List.append_of_mem hkv
    obtain ⟨hkeys, hproper⟩ := proper_obj.mp ha
    have hkeys' : ((l ++ (k, y) :: r).map (·.1)).Nodup := by
      simpa using hkeys
    have hlookup : (l ++ (k, y) :: r).lookup k = some y :=
      @lookup_of_mem (l ++ (k, y) :: r) (k, y) hkeys' (by simp)
    refine ⟨.obj (l ++ (k, y) :: r), proper_obj.mpr ⟨hkeys', fun kw hkw => ?_⟩, pyEq_obj.mpr ⟨by simp,
      fun kw hkw => ?_⟩, rfl, hclash.field (lookup_of_mem hkeys hkv) hlookup⟩
    · rcases List.mem_append.mp hkw with hkw | hkw
      · exact hproper kw <| List.mem_append_left _ hkw
      · rcases List.mem_cons.mp hkw with rfl | hkw
        · exact hy
        · exact hproper kw <| List.mem_append_right _ <| .tail _ hkw
    · have hold : kw ∈ l ++ (k, y) :: r → ∃ z, (l ++ (k, y) :: r).lookup kw.1 = some z ∧ kw.2.pyEq z :=
        fun hmem => ⟨kw.2, lookup_of_mem hkeys' hmem, pyEq_refl <| hproper kw hkw⟩
      rcases List.mem_append.mp hkw with hkw' | hkw'
      · exact hold <| List.mem_append_left _ hkw'
      · rcases List.mem_cons.mp hkw' with rfl | hkw'
        · exact ⟨y, hlookup, h⟩
        · exact hold <| List.mem_append_right _ <| .tail _ hkw'

theorem Child.proper (h : Child a x) (ha : a.proper) : x.proper := by
  cases h with
  | elem hx   => exact proper_arr.mp ha x hx
  | field hkv => exact (proper_obj.mp ha).right _ hkv

theorem Inside.exists_clash (h : Inside a x) (ha : a.proper) (hx : x.IsBit) :
    ∃ b, b.proper ∧ a.pyEq b ∧ b.isBool = a.isBool ∧ Clash a b := by
  induction h using Relation.TransGen.head_induction_on with
  | single hchild       =>
    obtain ⟨y, hy, he, hclash⟩ := hx.exists_clash
    exact hchild.exists_clash ha hy he hclash
  | head hchild _ ih =>
    obtain ⟨y, hy, he, _, hclash⟩ := ih <| hchild.proper ha
    exact hchild.exists_clash ha hy he hclash

-- A boolean inside one value meets an equal number inside the other one just where a bit is.
theorem clash_iff (ha : a.proper) :
    (∀ b, b.proper → a.pyEq b → b.isBool = a.isBool → ¬Clash a b) ↔ ∀ x, Inside a x → ¬x.IsBit := by
  constructor
  case mp  =>
    rintro h x hinside hx
    obtain ⟨b, hb, he, hbool, hclash⟩ := hinside.exists_clash ha hx
    exact h b hb he hbool hclash
  case mpr =>
    rintro h b _ he hbool ⟨x, y, haligned, hclash⟩
    obtain ⟨hxy, ⟨rfl, rfl⟩ | hinside⟩ := haligned.pyEq he
    · cases x <;> cases y <;> simp_all [isBool, isNumber, number?]
    · refine h x hinside ?_
      rcases hclash with hclash | hclash
      · exact isBit_of_isBool hclash.left
      · exact .of_pyEq (isBit_of_isBool hclash.right) hxy

end Json

open Json

namespace Predicates

theorem json_eq_iff {a b : Json} : json_eq a b = true ↔ a.pyEq b ∧ b.isBool = a.isBool := by
  cases a <;> cases b <;> simp [json_eq, number?, type_name, isBool, Json.pyEq]
  case int.int n m   => simp [PyFloat.eq_iff, PyFloat.isNaN]
  case int.float n y =>
    rw [Bool.eq_iff_iff, PyFloat.eq_iff, PyFloat.eq_iff, eq_comm (a := y)]
    exact and_congr_right fun h => by rw [h]

theorem json_eq_equivalence : Equivalence fun a b : { j : Json // j.proper } => json_eq a b where
  refl a          := json_eq_iff.mpr ⟨pyEq_refl a.property, rfl⟩
  symm {a b} h    :=
    have ⟨he, hbool⟩ := json_eq_iff.mp h
    json_eq_iff.mpr ⟨pyEq_symm a.property b.property he, hbool.symm⟩
  trans h h'      :=
    have ⟨he, hbool⟩ := json_eq_iff.mp h
    have ⟨he', hbool'⟩ := json_eq_iff.mp h'
    json_eq_iff.mpr ⟨pyEq_trans he he', hbool'.trans hbool⟩

end Predicates

namespace Evaluators

theorem typed_eq_iff {a b : Json} : typed_eq (some a) b = true ↔ a.pyEq b ∧ b.isBool = a.isBool := by
  cases a <;> cases b <;> simp [typed_eq, isNumber, number?, isBool, Json.pyEq]

theorem typed_eq_eq_json_eq {a b : Json} : typed_eq (some a) b = Predicates.json_eq a b := by
  rw [Bool.eq_iff_iff, typed_eq_iff, Predicates.json_eq_iff]

-- Each of the two is an equivalence, and they agree; but a container goes through the `==` of the
-- language, which takes a boolean for a number.
theorem typed_equality_deep {a : Json} (ha : a.proper) :
    (Equivalence fun a b : { j : Json // j.proper } => Predicates.json_eq a b) ∧
    (Equivalence fun a b : { j : Json // j.proper } => typed_eq (some a) b) ∧
    (∀ b, typed_eq (some a) b = Predicates.json_eq a b) ∧
    ((∀ b, b.proper → typed_eq (some a) b → ¬Clash a b) ↔ ∀ x, Inside a x → ¬x.IsBit) := by
  refine ⟨Predicates.json_eq_equivalence, ?_, fun _ => typed_eq_eq_json_eq, ?_⟩
  · simp only [typed_eq_eq_json_eq]
    exact Predicates.json_eq_equivalence
  · rw [← clash_iff ha]
    refine forall_congr' fun b => imp_congr_right fun _ => ?_
    rw [typed_eq_iff, and_imp]

theorem typed_equality_deep_bit :
    ¬∀ b : Json, b.proper → typed_eq (some (.arr [.bool true])) b → ¬Clash (.arr [.bool true]) b :=
  fun h => (@typed_equality_deep (.arr [.bool true]) rfl).right.right.right.mp h (.bool true)
    (.single <| .elem <| .head _) (.inr rfl)

theorem not_typed_equality_deep :
    ¬∀ a b : Json, a.proper → b.proper →
      (typed_eq (some a) b → ¬Clash a b) ∧ (Predicates.json_eq a b → ¬Clash a b) := by
  intro h
  have hclash : Clash (.arr [.bool true]) (.arr [.int 1]) :=
    .elem (i := 0) rfl rfl ⟨_, _, .here, .inl ⟨rfl, rfl⟩⟩
  exact (h (.arr [.bool true]) (.arr [.int 1]) rfl rfl).left (by decide) hclash

end Evaluators
