import LxcHttpServer.HeaderFields
import LxcHttpServer.Separators

/-!
# The strings of parameters

`parseStringParamTo_htable_clientParamData` looks for the `=` of a segment from its beginning on, as
far as it takes, and it keeps no value. A string that ends with `&` is the list of its segments,
so its keys are computed along that list.
-/
namespace LxcHttpServer
open EffectPrograms Strings Separators

section Insertions
variable {κ β : Type} [DecidableEq κ] {m : AList fun _ : κ => β} {pairs : List (κ × β)} {k : κ}
  {v : β}

/-- A map after the pairs were inserted in their order. -/
def insertAll (m : AList fun _ : κ => β) (pairs : List (κ × β)) : AList fun _ : κ => β :=
  pairs.foldl (fun m p => m.insert p.1 p.2) m

theorem insertAll_append (m : AList fun _ : κ => β) (pairs pairs' : List (κ × β)) :
    insertAll m (pairs ++ pairs') = insertAll (insertAll m pairs) pairs' :=
  List.foldl_append

theorem mem_insertAll : k ∈ insertAll m pairs ↔ k ∈ m ∨ k ∈ pairs.map Prod.fst := by
  induction pairs generalizing m with
  | nil => simp [insertAll]
  | cons p pairs ih =>
    change k ∈ insertAll (m.insert p.1 p.2) pairs ↔ _
    rw [ih, AList.mem_insert, List.map_cons, List.mem_cons]
    tauto

theorem lookup_insertAll_of_notMem (h : k ∉ pairs.map Prod.fst) :
    (insertAll m pairs).lookup k = m.lookup k := by
  induction pairs generalizing m with
  | nil => rfl
  | cons p pairs ih =>
    rw [List.map_cons, List.mem_cons, not_or] at h
    change (insertAll (m.insert p.1 p.2) pairs).lookup k = _
    rw [ih h.2, AList.lookup_insert_ne h.1]

/-- Of several values of a key the last one stays. -/
theorem lookup_insertAll_last (before : List (κ × β)) (h : k ∉ pairs.map Prod.fst) :
    (insertAll m (before ++ (k, v) :: pairs)).lookup k = some v := by
  rw [insertAll_append]
  change (insertAll ((insertAll m before).insert k v) pairs).lookup k = _
  rw [lookup_insertAll_of_notMem h, AList.lookup_insert]

theorem exists_last (h : k ∈ pairs.map Prod.fst) :
    ∃ before v after, pairs = before ++ (k, v) :: after ∧ k ∉ after.map Prod.fst := by
  induction pairs with
  | nil => cases h
  | cons p pairs ih =>
    by_cases hlater : k ∈ pairs.map Prod.fst
    · obtain ⟨before, v, after, rfl, hafter⟩ := ih hlater
      exact ⟨p :: before, v, after, rfl, hafter⟩
    · rw [List.map_cons, List.mem_cons] at h
      obtain rfl := h.resolve_right hlater
      exact ⟨[], p.2, pairs, rfl, hlater⟩

end Insertions

theorem beforeEquals_append_cons {k : Str} (hk : 61 ∉ k) (rest : Str) :
    beforeEquals (k ++ 61 :: rest) = k :=
  takeWhile_append_cons hk rest

namespace Strings

/-- The keys which the string of the segments makes the parser insert, if it comes to its end. -/
def insertedKeys : List Str → Option (List Str)
  | [] => some []
  | seg :: segs =>
    if 61 ∈ terminated 38 (seg :: segs) then
      (insertedKeys segs).map (beforeEquals (terminated 38 (seg :: segs)) :: ·)
    else none

theorem findFrom_append (p : UInt8 → Bool) (done rest : Str) :
    findFrom p (done ++ rest) done.length = (rest.findIdx? p).map (done.length + ·) := by
  rw [findFrom, List.drop_left]

theorem findIdx?_of_notMem {c : UInt8} {s : Str} (h : c ∉ s) : s.findIdx? (· = c) = none := by
  rw [List.findIdx?_eq_none_iff]
  intro b hb
  simpa using ne_of_mem_of_not_mem hb h

theorem findIdx?_append_cons {c : UInt8} {s : Str} (h : c ∉ s) (rest : Str) :
    (s ++ c :: rest).findIdx? (· = c) = some s.length := by
  rw [List.findIdx?_append, findIdx?_of_notMem h, List.findIdx?_cons, decide_eq_true rfl]
  simp

/-- The scan for the end of a segment. -/
theorem findFrom_amp {seg : Str} (hseg : 38 ∉ seg) (done rest : Str) :
    findFrom (· = 38) (done ++ (seg ++ 38 :: rest)) done.length =
      some (done.length + seg.length) := by
  rw [findFrom_append, findIdx?_append_cons hseg, Option.map_some]

/-- The scan for the end of a key. -/
theorem findFrom_equals (done rest : Str) :
    findFrom (· = 61) (done ++ rest) done.length =
      if 61 ∈ rest then some (done.length + (beforeEquals rest).length) else none := by
  rw [findFrom_append]
  split_ifs with hmem
  · obtain ⟨k, rest', rfl, hk⟩ := List.eq_append_cons_of_mem hmem
    rw [beforeEquals_append_cons hk, findIdx?_append_cons hk, Option.map_some]
  · rw [findIdx?_of_notMem hmem, Option.map_none]

/-- One round of the loop inserts the key of one segment, with no value. -/
theorem parseStringParam_round {seg : Str} (hseg : 38 ∉ seg) (done rest : Str) (params : Params) :
    parseStringParam (done ++ (seg ++ 38 :: rest)) params done.length done.length =
      if 61 ∈ seg ++ 38 :: rest then
        parseStringParam (done ++ (seg ++ 38 :: rest))
          (params.insert (beforeEquals (seg ++ 38 :: rest)) [])
          (done.length + seg.length + 1) (done.length + seg.length + 1)
      else none := by
  have hinside : done.length < (done ++ (seg ++ 38 :: rest)).length := by
    simp only [List.length_append, List.length_cons]
    omega
  rw [parseStringParam, if_pos hinside]
  split
  · next hamp =>
    rw [findFrom_amp hseg] at hamp
    cases hamp
  · next amp hamp =>
    rw [findFrom_amp hseg] at hamp
    cases hamp
    simp only [findFrom_equals]
    split_ifs with hmem
    · have hkey : ((done ++ (seg ++ 38 :: rest)).drop done.length).take
          (beforeEquals (seg ++ 38 :: rest)).length = beforeEquals (seg ++ 38 :: rest) := by
        rw [List.drop_left]
        exact (List.prefix_iff_eq_take.mp (List.takeWhile_prefix _)).symm
      simp only [Nat.add_sub_cancel_left, Nat.sub_self, List.take_zero, ite_self, hkey]
    · rfl

theorem parseStringParam_segments {segs : List Str} (hsegs : ∀ seg ∈ segs, 38 ∉ seg) (done : Str)
    (params : Params) :
    parseStringParam (done ++ terminated 38 segs) params done.length done.length =
      (insertedKeys segs).map fun keys => insertAll params (keys.map fun k => (k, [])) := by
  induction segs generalizing done params with
  | nil =>
    rw [parseStringParam, if_neg (by simp)]
    rfl
  | cons seg segs ih =>
    have hround := parseStringParam_round (hsegs seg List.mem_cons_self) done (terminated 38 segs)
      params
    rw [← terminated_cons] at hround
    rw [hround, insertedKeys]
    split_ifs with hmem
    · have hdone : done ++ terminated 38 (seg :: segs) =
          (done ++ (seg ++ [38])) ++ terminated 38 segs := by
        simp [List.append_assoc]
      have hlength : done.length + seg.length + 1 = (done ++ (seg ++ [38])).length := by
        simp [Nat.add_assoc]
      rw [hdone, hlength, ih fun seg' h => hsegs seg' (List.mem_cons_of_mem seg h), Option.map_map]
      rfl
    · rfl

end Strings

/-- A pair as it stands in a string `key1=value1&key2=value2&`. -/
structure KeyValue where
  key : Str
  value : Str
  key_plain : 61 ∉ key ∧ 38 ∉ key
  value_plain : 38 ∉ value

namespace KeyValue

def segment (p : KeyValue) : Str := p.key ++ 61 :: p.value

def pair (p : KeyValue) : Str × Str := (p.key, p.value)

/-- The string in which every pair has a `&` behind it. -/
def encode (ps : List KeyValue) : Str := terminated 38 (ps.map segment)

theorem segment_plain (p : KeyValue) : 38 ∉ p.segment := by
  simp [segment, p.key_plain.2, p.value_plain]

theorem insertedKeys_encode (ps : List KeyValue) :
    insertedKeys (ps.map segment) = some (ps.map key) := by
  induction ps with
  | nil => rfl
  | cons p ps ih =>
    have hstring : terminated 38 (p.segment :: ps.map segment) =
        p.key ++ 61 :: (p.value ++ 38 :: terminated 38 (ps.map segment)) := by
      simp [segment]
    have hmem : 61 ∈ terminated 38 (p.segment :: ps.map segment) := by simp [hstring]
    rw [List.map_cons, insertedKeys, if_pos hmem, ih, hstring,
      beforeEquals_append_cons p.key_plain.1]
    rfl

end KeyValue

namespace HttpData

variable {segs : List Str}

/-- The map that the pairs of a string are inserted into. -/
def paramsBefore (d : HttpData) : Params := d.clientParamData.getD ∅

theorem parseStringParamTo_htable_clientParamData_segments (hsegs : ∀ seg ∈ segs, 38 ∉ seg)
    (d : HttpData) (w : World) :
    parseStringParamTo_htable_clientParamData (terminated 38 segs) d w =
      match insertedKeys segs with
      | none => (.undefined .outOfBounds, w)
      | some keys => (.ok { d with
          clientParamData := some (insertAll d.paramsBefore (keys.map fun k => (k, []))) }, w) := by
  have hparse := parseStringParam_segments hsegs [] d.paramsBefore
  rw [List.nil_append, List.length_nil, paramsBefore] at hparse
  rw [parseStringParamTo_htable_clientParamData, hparse]
  cases insertedKeys segs with
  | none => rfl
  | some keys => rfl

/-- The pairs are inserted in their order, every value in full. -/
def Decodes (ps : List KeyValue) (d : HttpData) (w : World) : Prop := ∃ d' m,
  parseStringParamTo_htable_clientParamData (KeyValue.encode ps) d w = (.ok d', w) ∧
    d'.clientParamData = some m ∧
    ∀ k, m.lookup k = (insertAll d.paramsBefore (ps.map KeyValue.pair)).lookup k

/-- What the parser does instead: it inserts the pairs without their values. -/
theorem parse_encode (ps : List KeyValue) (d : HttpData) (w : World) :
    parseStringParamTo_htable_clientParamData (KeyValue.encode ps) d w = (.ok { d with
      clientParamData := some (insertAll d.paramsBefore (ps.map fun p => (p.key, []))) }, w) := by
  have hplain : ∀ seg ∈ ps.map KeyValue.segment, 38 ∉ seg := by
    intro seg hseg
    obtain ⟨p, -, rfl⟩ := List.mem_map.mp hseg
    exact p.segment_plain
  rw [KeyValue.encode, parseStringParamTo_htable_clientParamData_segments hplain,
    KeyValue.insertedKeys_encode]
  simp only [List.map_map]
  rfl

/-- A list of pairs is decoded exactly if the last value of every key is empty. -/
theorem decodes_iff (ps : List KeyValue) (d : HttpData) (w : World) : Decodes ps d w ↔
    ∀ before p after, ps = before ++ p :: after → p.key ∉ after.map KeyValue.key →
      p.value = [] := by
  have hkeys : ∀ qs : List KeyValue, (qs.map KeyValue.pair).map Prod.fst = qs.map KeyValue.key :=
    fun qs => List.map_map
  have hkeys' : ∀ qs : List KeyValue,
      (qs.map fun p => (p.key, ([] : Str))).map Prod.fst = qs.map KeyValue.key :=
    fun qs => List.map_map
  constructor
  · rintro ⟨d', m, hrun, hm, hlookup⟩ before p after rfl hlast
    rw [parse_encode] at hrun
    cases hrun
    cases hm
    have hsame := hlookup p.key
    rw [List.map_append, List.map_cons, List.map_append, List.map_cons, KeyValue.pair,
      lookup_insertAll_last _ (by rwa [hkeys']), lookup_insertAll_last _ (by rwa [hkeys])] at hsame
    exact (Option.some.inj hsame).symm
  · intro hempty
    refine ⟨_, _, parse_encode ps d w, rfl, ?_⟩
    intro k
    by_cases hk : k ∈ ps.map KeyValue.key
    · rw [← hkeys] at hk
      obtain ⟨before, v, after, hsplit, hlast⟩ := exists_last hk
      obtain ⟨front, back, rfl, rfl, hback⟩ := List.map_eq_append_iff.mp hsplit
      obtain ⟨p, later, rfl, hp, rfl⟩ := List.map_eq_cons_iff.mp hback
      cases hp
      rw [hkeys] at hlast
      have hvalue := hempty front p later rfl hlast
      rw [List.map_append, List.map_cons, List.map_append, List.map_cons, KeyValue.pair,
        lookup_insertAll_last _ (by rwa [hkeys']), lookup_insertAll_last _ (by rwa [hkeys]), hvalue]
    · rw [lookup_insertAll_of_notMem (by rwa [hkeys']), lookup_insertAll_of_notMem (by rwa [hkeys])]

/-- `a=1` -/
def plainPair : KeyValue where
  key := str "a"
  value := str "1"
  key_plain := by decide +kernel
  value_plain := by decide +kernel

/-- The string `a=1&` leaves no value for its key. -/
theorem not_decodes : KeyValue.encode [plainPair] = str "a=1&" ∧
    ¬ Decodes [plainPair] (new calmEnv 5) (firstClient 5 []) := by
  refine ⟨by decide +kernel, ?_⟩
  rintro ⟨d', m, hrun, hm, hlookup⟩
  rw [parse_encode] at hrun
  cases hrun
  cases hm
  have hsame := hlookup plainPair.key
  rw [insertAll, insertAll, List.map_singleton, List.map_singleton, List.foldl_cons,
    List.foldl_nil, List.foldl_cons, List.foldl_nil, KeyValue.pair, AList.lookup_insert,
    AList.lookup_insert] at hsame
  have hvalue := Option.some.inj hsame
  revert hvalue
  decide +kernel

/-! ## Segments without `=` -/

theorem beforeEquals_append {s : Str} (h : 61 ∈ s) (rest : Str) :
    beforeEquals (s ++ rest) = beforeEquals s := by
  obtain ⟨k, s', rfl, hk⟩ := List.eq_append_cons_of_mem h
  rw [List.append_assoc, List.cons_append, beforeEquals_append_cons hk, beforeEquals_append_cons hk]

/-- The scan that finds no `=` in its segment takes the `&` behind it. -/
theorem mem_beforeEquals {s : Str} (h : 61 ∉ s) (rest : Str) :
    38 ∈ beforeEquals (s ++ 38 :: rest) := by
  rw [beforeEquals, takeWhile_append h]
  simp

theorem insertedKeys_of_equals (h : ∀ seg ∈ segs, 61 ∈ seg) :
    insertedKeys segs = some (segs.map beforeEquals) := by
  induction segs with
  | nil => rfl
  | cons seg segs ih =>
    have hseg : 61 ∈ seg := h seg List.mem_cons_self
    have hmem : 61 ∈ terminated 38 (seg :: segs) := by
      rw [terminated_cons]
      exact List.mem_append_left _ hseg
    rw [insertedKeys, if_pos hmem, ih fun seg' hseg' => h seg' (List.mem_cons_of_mem seg hseg'),
      terminated_cons, beforeEquals_append hseg]
    rfl

/-- If no key holds a `&`, every segment has its `=`. -/
theorem equals_of_insertedKeys {keys : List Str} (h : insertedKeys segs = some keys)
    (hkeys : ∀ k ∈ keys, 38 ∉ k) : ∀ seg ∈ segs, 61 ∈ seg := by
  induction segs generalizing keys with
  | nil => simp
  | cons seg segs ih =>
    rw [insertedKeys] at h
    split_ifs at h with hmem
    obtain ⟨others, hothers, rfl⟩ := Option.map_eq_some_iff.mp h
    rw [List.forall_mem_cons] at hkeys ⊢
    refine ⟨?_, ih hothers hkeys.2⟩
    by_contra hseg
    rw [terminated_cons] at hkeys
    exact hkeys.1 (mem_beforeEquals hseg _)

/-- The parser comes to the end without leaving the string, and every key it inserts is part of
one segment. -/
def KeepsToSegments (s : Str) : Prop := ∀ (d : HttpData) (w : World), ∃ d' m,
  parseStringParamTo_htable_clientParamData s d w = (.ok d', w) ∧ d'.clientParamData = some m ∧
    ∀ k ∈ m, k ∈ d.paramsBefore ∨ ∃ seg ∈ s.splitOn 38, k <:+: seg

theorem parse_terminated (t : Str) (d : HttpData) (w : World) :
    parseStringParamTo_htable_clientParamData (t ++ [38]) d w =
      match insertedKeys (t.splitOn 38) with
      | none => (.undefined .outOfBounds, w)
      | some keys => (.ok { d with
          clientParamData := some (insertAll d.paramsBefore (keys.map fun k => (k, []))) }, w) := by
  rw [← terminated_splitOn]
  exact parseStringParamTo_htable_clientParamData_segments (fun seg => notMem_of_mem_splitOn) d w

theorem mem_insertAll_keys {m : Params} {keys : List Str} {k : Str} :
    k ∈ insertAll m (keys.map fun k => (k, ([] : Str))) ↔ k ∈ m ∨ k ∈ keys := by
  rw [mem_insertAll, List.map_map]
  simp

/-- With a map that is empty before, all the keys come from the string. -/
theorem KeepsToSegments.keys {t : Str} (h : KeepsToSegments (t ++ [38])) :
    ∃ keys, insertedKeys (t.splitOn 38) = some keys ∧ ∀ k ∈ keys, 38 ∉ k := by
  obtain ⟨d', m, hrun, hm, hkeys⟩ := h (new calmEnv 0) (firstClient 0 [])
  rw [parse_terminated] at hrun
  cases hinserted : insertedKeys (t.splitOn 38) with
  | none =>
    rw [hinserted] at hrun
    cases hrun
  | some keys =>
    rw [hinserted] at hrun
    cases hrun
    cases hm
    refine ⟨keys, rfl, ?_⟩
    intro k hk hamp
    rcases hkeys k (mem_insertAll_keys.mpr (.inr hk)) with hprior | ⟨seg, hseg, hpart⟩
    · exact AList.notMem_empty k hprior
    · exact notMem_of_mem_splitOn hseg (hpart.subset hamp)

/-- The scans keep to the segments of a string that ends with `&` exactly if every segment has
a `=`. -/
theorem keeps_to_segments_iff (t : Str) :
    KeepsToSegments (t ++ [38]) ↔ ∀ seg ∈ t.splitOn 38, 61 ∈ seg := by
  constructor
  · intro h
    obtain ⟨keys, hinserted, hkeys⟩ := h.keys
    exact equals_of_insertedKeys hinserted hkeys
  · intro h d w
    have hrun := parse_terminated t d w
    rw [insertedKeys_of_equals h] at hrun
    refine ⟨_, _, hrun, rfl, ?_⟩
    intro k hk
    rcases mem_insertAll_keys.mp hk with hprior | hkey
    · exact .inl hprior
    · obtain ⟨seg, hseg, rfl⟩ := List.mem_map.mp hkey
      right
      refine ⟨seg, ?_, (List.takeWhile_prefix _).isInfix⟩
      rw [List.splitOn_append_cons_self]
      exact List.mem_append_left _ hseg

/-- The first key of `a&b=1&` is `a&b`, and the scan for the key of `a&` leaves the string. -/
theorem not_keeps_to_segments :
    ¬ KeepsToSegments (str "a&b=1" ++ [38]) ∧ ¬ KeepsToSegments (str "a" ++ [38]) := by
  constructor
  · intro h
    obtain ⟨keys, hinserted, hkeys⟩ := h.keys
    have heval : insertedKeys ((str "a&b=1").splitOn 38) = some [str "a&b", str "b"] := by
      decide +kernel
    rw [heval] at hinserted
    cases hinserted
    have hamp : 38 ∈ str "a&b" := by decide +kernel
    exact hkeys (str "a&b") List.mem_cons_self hamp
  · intro h
    obtain ⟨keys, hinserted, -⟩ := h.keys
    have heval : insertedKeys ((str "a").splitOn 38) = none := by decide +kernel
    rw [heval] at hinserted
    cases hinserted

end HttpData
end LxcHttpServer
