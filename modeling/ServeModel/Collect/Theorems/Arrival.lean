import ServeModel.Collect.InMemory
import ServeModel.Collect.Theorems.Agreement
import ServeModel.Collect.Theorems.ParentResult

-- The results of the children in the order in which they arrive, and what the parent makes of them.
namespace Collect

open List hiding count

open Json Scheduler
open scoped List

section Stores

variable {group : CollectGroup} {g : GroupState} {s : InMemoryState} {result : CollectedMemberResult}

-- The keys of a group in Redis say the same as the in-memory store.
structure Agree (g : GroupState) (s : InMemoryState) : Prop where
  group : s.group = g.metadata.map ({ · with results := g.items })
  finalization : s.finalization = g.finalization
  runIds : g.runIds = (g.items.map (·.childRunId)).toFinset
  stats : ∀ status, g.stats status = countResultsWithStatus g.items status

theorem mem_runIds (h : Agree g s) : runId ∈ g.runIds ↔ g.items.any (·.childRunId = runId) := by
  simp [h.runIds]

-- Both stores take or refuse a result alike.
theorem Agree.add (h : Agree g s) :
    Agree (g.append result (memberResultStatus result)).2 (s.addResult parentRunId result).2 := by
  unfold GroupState.append InMemoryState.addResult
  rw [h.group, h.finalization]
  cases hm : g.metadata
  case none => exact h
  case some metadata =>
    simp only [Option.map_some, Option.isNone_some, mem_runIds h, Bool.false_eq_true, if_false]
    split_ifs
    case pos => exact h
    case pos => exact h
    case neg =>
      constructor
      case group => simp
      case finalization => rfl
      case runIds => simp [h.runIds, Finset.union_comm]
      case stats =>
        intro status
        by_cases hs : status = memberResultStatus result
        case pos => simp [hs, h.stats, countResultsWithStatus]
        case neg => simp [hs, h.stats, countResultsWithStatus, Ne.symm hs]

-- The group once some results have been added, as either store has it.
def inMemoryGroup (group : CollectGroup) (results : List CollectedMemberResult) : Option CollectGroup :=
  (results.foldl (fun s result => (s.addResult group.parentRunId result).2) ⟨some group, none⟩ : InMemoryState).group

def redisGroup (group : CollectGroup) (results : List CollectedMemberResult) : Option CollectGroup :=
  let g := results.foldl (fun g result => (g.append result (memberResultStatus result)).2)
    ({ metadata := some group } : GroupState)
  g.metadata.map ({ · with results := g.items })

theorem agree_foldl (h : Agree g s) (results : List CollectedMemberResult) :
    Agree (results.foldl (fun g result => (g.append result (memberResultStatus result)).2) g)
      (results.foldl (fun s result => (s.addResult parentRunId result).2) s) := by
  induction results generalizing g s
  case nil => exact h
  case cons result results hi => exact hi h.add

theorem redisGroup_eq (h : group.results = []) (results : List CollectedMemberResult) :
    redisGroup group results = inMemoryGroup group results := by
  have hg : Agree { metadata := some group } ⟨some group, none⟩ := {
    group := by simp [← h]
    finalization := rfl
    runIds := rfl
    stats := fun _ => rfl
  }
  exact (agree_foldl hg results).group.symm

-- Results of different children are all kept, in the order of their arrival.
theorem foldl_addResult (h : ((group.results ++ results).map (·.childRunId)).Nodup) :
    results.foldl (fun s result => (s.addResult parentRunId result).2) ⟨some group, none⟩ =
      (⟨some { group with results := group.results ++ results }, none⟩ : InMemoryState) := by
  induction results generalizing group
  case nil => simp
  case cons result results hi =>
    have hn : ¬group.results.any (·.childRunId = result.childRunId) := by
      intro ha
      have ⟨known, hk, he⟩ := any_eq_true.mp ha
      rw [map_append, nodup_append] at h
      exact h.right.right _ (mem_map_of_mem hk) _ mem_cons_self (of_decide_eq_true he)
    have hs : (InMemoryState.addResult parentRunId result ⟨some group, none⟩).2 =
        ⟨some { group with results := group.results ++ [result] }, none⟩ := by
      simp [InMemoryState.addResult, hn]
    rw [foldl_cons, hs, hi (by simpa using h)]
    simp

theorem inMemoryGroup_eq (h : group.results = []) (hn : (results.map (·.childRunId)).Nodup) :
    inMemoryGroup group results = some { group with results } := by
  unfold inMemoryGroup
  rw [foldl_addResult (by simpa [h] using hn), h, nil_append]

end Stores

section Sorting

-- A list without repetitions has any two of its elements in one order only.
theorem nodup_not_swapped (hn : l.Nodup) (hab : [a, b] <+ l) : ¬[b, a] <+ l := by
  intro hba
  induction l
  case nil => cases hab
  case cons c l hi =>
    have ⟨hc, hl⟩ := nodup_cons.mp hn
    cases hab
    case cons hab =>
      cases hba
      case cons hba => exact hi hl hab hba
      case cons_cons hba => exact hc (hab.subset (by simp))
    case cons_cons hab =>
      cases hba
      case cons hba => exact hc (hba.subset (by simp))
      case cons_cons hba => exact hc (hab.subset (by simp))

variable {group : CollectGroup} {xs ys : List CollectedMemberResult}

-- A parent result only depends on the sorted results.
theorem buildParentResult_congr
    (h : sortedResults { group with results := xs } = sortedResults { group with results := ys }) :
    buildParentResult { group with results := xs } = buildParentResult { group with results := ys } := by
  simp only [sortedResults] at h
  simp only [buildParentResult, h]

theorem pairwise_sortedResults : (sortedResults group).Pairwise (·.itemIndex ≤ ·.itemIndex) :=
  pairwise_insertionSort _ _

theorem sortedResults_perm : sortedResults group ~ group.results :=
  perm_insertionSort _ _

-- Different indices leave only one order.
theorem sortedResults_eq_of_perm (hp : xs ~ ys) (hx : (xs.map (·.itemIndex)).Nodup) :
    sortedResults { group with results := xs } = sortedResults { group with results := ys } := by
  have hsx : sortedResults { group with results := xs } ~ xs := sortedResults_perm
  have hsy : sortedResults { group with results := ys } ~ ys := sortedResults_perm
  apply (hsx.trans (hp.trans hsy.symm)).eq_of_pairwise _ pairwise_sortedResults pairwise_sortedResults
  intro a b ha hb hab hba
  have ha : a ∈ xs := hsx.mem_iff.mp ha
  have hb : b ∈ xs := hp.mem_iff.mpr (hsy.mem_iff.mp hb)
  exact inj_on_of_nodup_map hx ha hb (Nat.le_antisymm hab hba)

theorem buildParentResult_childRunIds
    (h : buildParentResult { group with results := xs } = buildParentResult { group with results := ys }) :
    (sortedResults { group with results := xs }).map (·.childRunId) =
      (sortedResults { group with results := ys }).map (·.childRunId) := by
  have hc := congrArg (·.get "child_results") h
  simp only [buildParentResult_childResults, Option.some.injEq, Json.arr.injEq] at hc
  have hm := congrArg (List.mapM fun entry => (entry.get "child_run_id").bind asStr) hc
  simpa only [mapM_childRunId, Option.some.injEq] using hm

-- Two results of one index stay in the order of their arrival, so that the reverse order tells.
theorem buildParentResult_reverse_ne (hn : (xs.map (·.childRunId)).Nodup) (hab : [a, b] <+ xs)
    (he : a.itemIndex = b.itemIndex) :
    buildParentResult { group with results := xs } ≠ buildParentResult { group with results := xs.reverse } := by
  intro h
  have hids := buildParentResult_childRunIds h
  have hx : [a, b] <+ sortedResults { group with results := xs } :=
    pair_sublist_insertionSort (Nat.le_of_eq he) hab
  have hy : [b, a] <+ sortedResults { group with results := xs.reverse } :=
    pair_sublist_insertionSort (Nat.le_of_eq he.symm) hab.reverse
  have hn : ((sortedResults { group with results := xs }).map (·.childRunId)).Nodup :=
    (sortedResults_perm.map _).nodup_iff.mpr hn
  exact nodup_not_swapped hn (hx.map _) (hids ▸ hy.map _)

end Sorting

section Children

variable {payload : Fields} {group : CollectGroup} {children : List Output}

def delivered (child : Output) : Message where
  id := ""
  stream := gatherQueue
  group := gatherQueue
  runId := child.runId.getD ""
  payload := child.payload
  stage := gatherPhase

-- What collect stores about a child with this result, unless it rejects the message.
def memberOf (child : Output) (result : Json) : Option CollectedMemberResult :=
  (received child result).map fun (typed, value) => memberResult (delivered child) typed value

def entries (children : List Output) (results : Nat → Json) : List CollectedMemberResult :=
  children.zipIdx.filterMap fun child => memberOf child.1 (results child.2)

theorem collected_spec (hp : IsParent payload count parent) (hc : IsChild parent runId position item child)
    (h : memberOf child result = some entry) :
    Collectable runId count (field "failure_policy" (fanoutProfile payload)) ∧
      itemIndex position item = some entry.itemIndex ∧
      entry.childRunId = Text.trim (childRunId runId position) := by
  have ⟨⟨typed, value⟩, hr, he⟩ := Option.map_eq_some_iff.mp h
  have ⟨hcollect, hid⟩ := received_spec hp hc hr
  refine ⟨hcollect, he ▸ hid.index, ?_⟩
  simp [← he, memberResult, typedChildRunId, hid.runId, asStr, Text.nonBlank, childRunId_not_blank]

theorem nodup_filterMap_zipIdx {l : List α} :
    (l.zipIdx.filterMap f).Nodup ↔ ∀ (i j : Nat) a b, i < j → l[i]? = some a → l[j]? = some b →
      ∀ k, f (a, i) = some k → f (b, j) ≠ some k := by
  rw [List.Nodup, pairwise_filterMap, pairwise_iff_getElem]
  simp only [getElem_zipIdx, length_zipIdx, zero_add, getElem?_eq_some_iff]
  constructor
  case mp =>
    intro h i j a b hij ⟨hi, ha⟩ ⟨hj, hb⟩ k hk hk'
    exact h i j hi hj hij k (ha ▸ hk) k (hb ▸ hk') rfl
  case mpr =>
    intro h i j hi hj hij k hk k' hk' he
    exact h i j _ _ hij ⟨hi, rfl⟩ ⟨hj, rfl⟩ k hk (he ▸ hk')

theorem nodup_map_entries {f : CollectedMemberResult → β} :
    ((entries children results).map f).Nodup ↔ ∀ (i j : Nat) c d, i < j → children[i]? = some c →
      children[j]? = some d → ∀ x y, memberOf c (results i) = some x → memberOf d (results j) = some y → f x ≠ f y := by
  rw [entries, map_filterMap, nodup_filterMap_zipIdx]
  simp only [ne_eq, Option.map_eq_some_iff]
  constructor
  case mp =>
    intro h i j c d hij hc hd x y hx hy he
    exact h i j c d hij hc hd _ ⟨x, hx, rfl⟩ ⟨y, hy, he.symm⟩
  case mpr =>
    intro h i j c d hij hc hd k ⟨x, hx, hk⟩ ⟨y, hy, hk'⟩
    exact h i j c d hij hc hd x y hx hy (hk.trans hk'.symm)

theorem entries_nodup (plan : Plan payload runId items group children) :
    ((entries children results).map (·.childRunId)).Nodup := by
  have ⟨parent, hp, hchildren⟩ := plan.children
  apply nodup_map_entries.mpr
  intro i j c d hij hc hd x y hx hy he
  have ⟨_, _, hc⟩ := hchildren i c hc
  have ⟨_, _, hd⟩ := hchildren j d hd
  have ⟨_, _, hx⟩ := collected_spec hp hc hx
  have ⟨_, _, hy⟩ := collected_spec hp hd hy
  exact Nat.ne_of_lt hij (trim_childRunId_inj (hx.symm.trans (he.trans hy)))

theorem exists_collected (plan : Plan payload runId items group children)
    (hcollect : Collectable runId items.length (field "failure_policy" (fanoutProfile payload)))
    (hi : items[i]? = some item) (hk : itemIndex i item = some k) (result : Json) :
    ∃ child entry, children[i]? = some child ∧ memberOf child result = some entry ∧ entry.itemIndex = k := by
  have ⟨parent, hp, hchildren⟩ := plan.children
  have ⟨child, hc⟩ := plan.exists_child hi
  have ⟨_, hi', hchild⟩ := hchildren i child hc
  cases hi.symm.trans hi'
  have ⟨hlt, _⟩ := List.getElem?_eq_some_iff.mp hi
  have hs : (received child result).isSome :=
    (received_isSome hp (by omega) hchild).mpr ⟨hcollect, Option.isSome_iff_exists.mpr ⟨k, hk⟩⟩
  have ⟨envelope, hr⟩ := Option.isSome_iff_exists.mp hs
  have hx : memberOf child result = some _ := Option.map_eq_some_iff.mpr ⟨envelope, hr, rfl⟩
  have ⟨_, hindex, _⟩ := collected_spec hp hchild hx
  exact ⟨child, _, hc, hx, Option.some.inj (hindex.symm.trans hk)⟩

-- The indices that are collected are those of the items.
theorem entries_indices_nodup_iff (plan : Plan payload runId items group children) :
    ((entries children results).map (·.itemIndex)).Nodup ↔
      (Collectable runId items.length (field "failure_policy" (fanoutProfile payload)) →
        (items.zipIdx.filterMap fun item => itemIndex item.2 item.1).Nodup) := by
  rw [nodup_filterMap_zipIdx, nodup_map_entries]
  constructor
  case mp =>
    intro h hcollect i j a b hij ha hb k hi hj
    have ⟨c, x, hc, hx, hk⟩ := exists_collected plan hcollect ha hi (results i)
    have ⟨d, y, hd, hy, hk'⟩ := exists_collected plan hcollect hb hj (results j)
    exact h i j c d hij hc hd x y hx hy (hk.trans hk'.symm)
  case mpr =>
    intro h i j c d hij hc hd x y hx hy he
    have ⟨parent, hp, hchildren⟩ := plan.children
    have ⟨a, ha, hc⟩ := hchildren i c hc
    have ⟨b, hb, hd⟩ := hchildren j d hd
    have ⟨hcollect, hi, _⟩ := collected_spec hp hc hx
    have ⟨_, hj, _⟩ := collected_spec hp hd hy
    exact h hcollect i j a b hij ha hb _ hi (he ▸ hj)

end Children

section OrderFree

variable {group : CollectGroup} {children : List Output}

-- Whatever the results of the children are, the order in which they arrive makes no difference.
def OrderFree (children : List Output) (store : List CollectedMemberResult → Option CollectGroup) : Prop :=
  ∀ results xs ys, xs ~ entries children results → ys ~ entries children results →
    (store xs).map buildParentResult = (store ys).map buildParentResult

theorem orderFree_inMemory_iff (plan : Plan payload runId items group children) :
    OrderFree children (inMemoryGroup group) ↔
      ∀ results, ((entries children results).map (·.itemIndex)).Nodup := by
  have hgroup {results xs} (hp : xs ~ entries children results) :
      inMemoryGroup group xs = some { group with results := xs } :=
    inMemoryGroup_eq plan.empty ((hp.map _).nodup_iff.mpr (entries_nodup plan))
  constructor
  case mp =>
    intro hfree results
    have h := hfree results _ _ (.refl _) (reverse_perm _)
    rw [hgroup (.refl _), hgroup (reverse_perm _)] at h
    rw [List.Nodup, pairwise_map, pairwise_iff_forall_sublist]
    intro a b hab he
    exact buildParentResult_reverse_ne (entries_nodup plan) hab he (Option.some.inj h)
  case mpr =>
    intro hn results xs ys hx hy
    rw [hgroup hx, hgroup hy]
    have hi : (xs.map (·.itemIndex)).Nodup := (hx.map _).nodup_iff.mpr (hn results)
    exact congrArg some (buildParentResult_congr (sortedResults_eq_of_perm (hx.trans hy.symm) hi))

-- The indices of the items that collect can read, with the position for an item that has none.
def itemIndices (payload : Json) : List Nat :=
  (fanoutItems payload).zipIdx.filterMap fun item => itemIndex item.2 item.1

theorem parent_result_order_free_iff {payload : Json}
    (h : fanoutPlan runId payload stream = .ok (group, children)) :
    (OrderFree children (inMemoryGroup group) ∧ OrderFree children (redisGroup group)) ↔
      (Collectable runId (fanoutItems payload).length
          ((payload.get "fanout_profile").bind (·.get "failure_policy")) → (itemIndices payload).Nodup) := by
  have ⟨fields, items, hf, plan⟩ := fanoutPlan_ok h
  cases hf
  have hi : fanoutItems (.obj fields) = items := by simp [fanoutItems, plan.listed, asArray]
  have hr : redisGroup group = inMemoryGroup group := funext (redisGroup_eq plan.empty)
  rw [hr, and_self, orderFree_inMemory_iff plan, itemIndices, hi, get_obj, ← failure_policy_fanoutProfile]
  constructor
  case mp => exact fun hn => (entries_indices_nodup_iff plan).mp (hn fun _ => .null)
  case mpr => exact fun hn results => (entries_indices_nodup_iff plan).mpr hn

theorem parent_result_order_free :
    ∃ group children, fanoutPlan "p" (.obj (fanoutFields [.object [], .object []])) "schedule" = .ok (group, children) ∧
      OrderFree children (inMemoryGroup group) ∧ OrderFree children (redisGroup group) := by
  have ha : accepts "p" (fanoutFields [.object [], .object []]) := by decide +kernel
  have ⟨group, children, h⟩ := fanoutPlan_of_accepts "schedule" ha
  refine ⟨group, children, h, (parent_result_order_free_iff h).mpr fun _ => ?_⟩
  decide +kernel

-- Two items may bring the same index along, and then the result that arrives first is listed first.
theorem parent_result_order_tells :
    ∃ group children, fanoutPlan "p" (.obj (fanoutFields [.object [("item_index", .nat 0)],
        .object [("item_index", .nat 0)]])) "schedule" = .ok (group, children) ∧
      ∃ results xs ys, xs ~ entries children results ∧ ys ~ entries children results ∧
        (redisGroup group xs).map buildParentResult ≠ (redisGroup group ys).map buildParentResult := by
  have ha : accepts "p" (fanoutFields [.object [("item_index", .nat 0)], .object [("item_index", .nat 0)]]) := by
    decide +kernel
  have ⟨group, children, h⟩ := fanoutPlan_of_accepts "schedule" ha
  refine ⟨group, children, h, ?_⟩
  have ⟨fields, items, hf, plan⟩ := fanoutPlan_ok h
  cases hf
  have hi : items = [.object [("item_index", .nat 0)], .object [("item_index", .nat 0)]] := by
    rw [← fanoutFields_items [_, _]]
    simp [fanoutItems, plan.listed, asArray]
  by_contra hnot
  have hfree : OrderFree children (redisGroup group) := by
    intro results xs ys hx hy
    by_contra hne
    exact hnot ⟨results, xs, ys, hx, hy, hne⟩
  have hr : redisGroup group = inMemoryGroup group := funext (redisGroup_eq plan.empty)
  have hn := (orderFree_inMemory_iff plan).mp (hr ▸ hfree) fun _ => .null
  have hn := (entries_indices_nodup_iff plan).mp hn ⟨by decide, ?_, ?_⟩
  case refine_1 => simp [hi]
  case refine_2 => simp [failure_policy_fanoutProfile, fanoutFields, literal, field, PolicyFits]
  rw [hi] at hn
  exact absurd hn (by decide +kernel)

end OrderFree

end Collect
