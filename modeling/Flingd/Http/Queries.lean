import Flingd.Base.Lines
import Flingd.Http.UrlParser

/-! What `parse_query` makes of a query that was built from pairs. -/
namespace Flingd.Http.UrlParser

/-- The query `k1=v1&k2=v2&...`. -/
def buildQuery (pairs : List (Bytes × Bytes)) : Bytes :=
  join 38 (pairs.map fun kv => kv.1 ++ 61 :: kv.2)

def readParam (kv_str : Bytes) : Option (Bytes × Bytes) :=
  match split 61 kv_str with
  | [key, value] => some (key, value)
  | _ => none

theorem parseQuery_eq (query : Bytes) : parseQuery query =
    ((split 38 query).filterMap readParam).foldl (fun out kv => out.insert kv.1 kv.2)
      StdMap.empty := by
  rw [List.foldl_filterMap]
  unfold parseQuery readParam
  congr 1
  funext out kv_str
  cases split 61 kv_str with
  | nil => rfl
  | cons key parts =>
    match parts with
    | [] | [_] | _ :: _ :: _ => rfl

theorem split_of_notMem {sep : UInt8} {s : Bytes} (h : sep ∉ s) : split sep s = [s] := by
  have hjoin : split sep (join sep [s]) = [s] :=
    split_join (fun p hp => List.mem_singleton.mp hp ▸ h) (List.cons_ne_nil _ _)
  rwa [join_singleton] at hjoin

/-- A value with a `=` has too many parts. -/
theorem readParam_pair {key : Bytes} (hkey : 61 ∉ key) (value : Bytes) :
    readParam (key ++ 61 :: value) = if 61 ∈ value then none else some (key, value) := by
  unfold readParam
  rw [split_cons hkey]
  split_ifs with hvalue
  · split
    · rename_i key' value' hsplit
      rw [List.cons_eq_cons] at hsplit
      have hjoin := join_split 61 value
      rw [hsplit.2, join_singleton] at hjoin
      have hmem : value' ∈ split 61 value := hsplit.2 ▸ List.mem_singleton_self value'
      exact absurd (hjoin ▸ hvalue) (mem_split hmem).1
    · rfl
  · rw [split_of_notMem hvalue]

structure Splits (pairs : List (Bytes × Bytes)) : Prop where
  keys : ∀ kv ∈ pairs, kv.1 ≠ [] ∧ 38 ∉ kv.1 ∧ 61 ∉ kv.1
  values : ∀ kv ∈ pairs, 38 ∉ kv.2 ∧ 35 ∉ kv.2
  distinct : (pairs.map (·.1)).Nodup

theorem split_buildQuery {pairs : List (Bytes × Bytes)} (h : Splits pairs) (hne : pairs ≠ []) :
    split 38 (buildQuery pairs) = pairs.map fun kv => kv.1 ++ 61 :: kv.2 := by
  refine split_join (fun p hp => ?_) (by simpa using hne)
  obtain ⟨kv, hkv, rfl⟩ := List.mem_map.mp hp
  simp [(h.keys kv hkv).2.1, (h.values kv hkv).1]

/-- The parameters that count are the pairs without a `=` in the value. -/
theorem readParams_buildQuery {pairs : List (Bytes × Bytes)} (h : Splits pairs) :
    (split 38 (buildQuery pairs)).filterMap readParam = pairs.filter fun kv => 61 ∉ kv.2 := by
  by_cases hne : pairs = []
  · subst hne
    rfl
  rw [split_buildQuery h hne, List.filterMap_map, ← List.filterMap_eq_filter]
  refine List.filterMap_congr fun kv hkv => ?_
  rw [Function.comp_apply, readParam_pair (h.keys kv hkv).2.2]
  by_cases hvalue : 61 ∈ kv.2 <;> simp [hvalue, Option.guard]

theorem getValue_buildQuery {pairs : List (Bytes × Bytes)} (h : Splits pairs) (key : Bytes) :
    getValue (parseQuery (buildQuery pairs)) key =
      (((pairs.filter fun kv => 61 ∉ kv.2).find? fun kv => kv.1 = key).map (·.2)).getD [] := by
  unfold getValue
  rw [parseQuery_eq, readParams_buildQuery h, StdMap.scan_foldl_insert]
  cases (pairs.filter fun kv => 61 ∉ kv.2).find? fun kv => kv.1 = key <;> rfl

/-- Of pairs with distinct keys the one with a key is found. -/
theorem find_key {pairs : List (Bytes × Bytes)} (hd : (pairs.map (·.1)).Nodup)
    {kv : Bytes × Bytes} (hkv : kv ∈ pairs) :
    (pairs.find? fun kv' => kv'.1 = kv.1) = some kv := by
  induction pairs with
  | nil => cases hkv
  | cons kv₀ pairs ih =>
    obtain ⟨hnew, hd⟩ := List.nodup_cons.mp hd
    rcases List.mem_cons.mp hkv with rfl | hkv
    · exact List.find?_cons_of_pos (decide_eq_true rfl)
    · have hne : kv₀.1 ≠ kv.1 := fun heq => hnew (List.mem_map.mpr ⟨kv, hkv, heq.symm⟩)
      rw [List.find?_cons_of_neg (by simpa using hne), ih hd hkv]

theorem getValue_member {pairs : List (Bytes × Bytes)} (h : Splits pairs) {kv : Bytes × Bytes}
    (hkv : kv ∈ pairs) :
    getValue (parseQuery (buildQuery pairs)) kv.1 = if 61 ∈ kv.2 then [] else kv.2 := by
  rw [getValue_buildQuery h]
  have hfilter : ((pairs.filter fun kv => 61 ∉ kv.2).map (·.1)).Nodup :=
    h.distinct.sublist (List.Sublist.map _ List.filter_sublist)
  split_ifs with hvalue
  · have hnone : (pairs.filter fun kv => 61 ∉ kv.2).find? (fun kv' => kv'.1 = kv.1) = none := by
      refine List.find?_eq_none.mpr fun kv' hkv' => ?_
      obtain ⟨hkv', hvalue'⟩ := List.mem_filter.mp hkv'
      rw [decide_eq_true_eq]
      intro heq
      have hsame := find_key h.distinct hkv'
      rw [heq, find_key h.distinct hkv] at hsame
      rw [Option.some.inj hsame] at hvalue
      exact of_decide_eq_true hvalue' hvalue
    rw [hnone]
    rfl
  · rw [find_key hfilter (List.mem_filter.mpr ⟨hkv, decide_eq_true hvalue⟩)]
    rfl

/-- A key that was not built in has no value. -/
theorem getValue_other {pairs : List (Bytes × Bytes)} (h : Splits pairs) {key : Bytes}
    (hkey : ∀ kv ∈ pairs, kv.1 ≠ key) :
    getValue (parseQuery (buildQuery pairs)) key = [] := by
  rw [getValue_buildQuery h, List.find?_eq_none.mpr]
  · rfl
  · intro kv hkv
    simpa using hkey kv (List.mem_filter.mp hkv).1

/-- `get_value` gives back what the query was built from. -/
def Undone (pairs : List (Bytes × Bytes)) : Prop :=
  (∀ kv ∈ pairs, getValue (parseQuery (buildQuery pairs)) kv.1 = kv.2) ∧
    ∀ key, (∀ kv ∈ pairs, kv.1 ≠ key) → getValue (parseQuery (buildQuery pairs)) key = []

theorem query_undone_iff {pairs : List (Bytes × Bytes)} (h : Splits pairs) :
    Undone pairs ↔ ∀ kv ∈ pairs, 61 ∉ kv.2 := by
  constructor
  · intro hundone kv hkv hvalue
    have hget := hundone.1 kv hkv
    rw [getValue_member h hkv, if_pos hvalue] at hget
    exact List.ne_nil_of_mem hvalue hget.symm
  · intro hvalues
    refine ⟨fun kv hkv => ?_, fun key hkey => getValue_other h hkey⟩
    rw [getValue_member h hkv, if_neg (hvalues kv hkv)]

theorem query_undone_iff_peer :
    Undone [(str "key", str "peerjs"), (str "id", str "a"), (str "token", [])] ↔
      ∀ kv ∈ [(str "key", str "peerjs"), (str "id", str "a"), (str "token", ([] : Bytes))],
        61 ∉ kv.2 :=
  query_undone_iff ⟨by decide, by decide, by decide⟩

/-- A padded token is lost. -/
theorem padded_token_lost :
    Splits [(str "id", str "a"), (str "token", str "YWI=")] ∧
    buildQuery [(str "id", str "a"), (str "token", str "YWI=")] = str "id=a&token=YWI=" ∧
    getValue (parseQuery (str "id=a&token=YWI=")) (str "token") = [] ∧
    ¬ Undone [(str "id", str "a"), (str "token", str "YWI=")] := by
  have hget : getValue (parseQuery (str "id=a&token=YWI=")) (str "token") = [] := by decide
  refine ⟨⟨by decide, by decide, by decide⟩, by decide, hget, fun h => ?_⟩
  have htoken := h.1 (str "token", str "YWI=") (by decide)
  exact absurd htoken (by decide)

end Flingd.Http.UrlParser
