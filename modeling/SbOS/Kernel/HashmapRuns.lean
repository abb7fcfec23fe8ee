import Mathlib.Algebra.BigOperators.Group.Finset.Piecewise
import Mathlib.Data.List.Perm.Subperm
import SbOS.Kernel.Hashmap

/-! Runs of the hash map against a list of entries in the order in which they were
added. `hashmap_delete_entry` never learns the predecessor of the entry it takes
out: behind the first entry of the list it cuts away everything in between, and with
the first entry it drops the list. -/
namespace SbOS.Kernel.Hashmap
open Chain Function Prod
open List hiding after

variable {t t' : Table} {cells nodes : List (Nat × Entry)} {key : Key} {fuel : Nat}

/-! ## Walking a list -/

theorem node_run (found : t.nodes a = some link) : node a t = .ok link t := by
  unfold node
  rw [found]

/-- The first node with the key. -/
def first (key : Key) (nodes : List (Nat × Entry)) : Option (Nat × Entry) :=
  nodes.find? fun cell => cell.2.key = key

theorem getLinkedlistEntry_run (path : Path t.nodes start nodes 0) (enough : nodes.length < fuel) :
    getLinkedlistEntry key fuel start t = .ok (((first key nodes).map fst).getD 0) t := by
  induction nodes generalizing start fuel with
  | nil =>
    obtain rfl : start = 0 := path
    obtain ⟨fuel, rfl⟩ := Nat.exists_eq_add_one.mpr enough
    rfl
  | cons cell rest ih =>
    obtain ⟨a, e⟩ := cell
    obtain ⟨rfl, nonzero, next, found, path⟩ := path
    obtain ⟨fuel, rfl⟩ := Nat.exists_eq_add_one.mpr (Nat.zero_lt_of_lt enough)
    unfold getLinkedlistEntry first
    rw [run_if_neg nonzero, run_bind_ok (node_run found), find?_cons]
    by_cases same : e.key = key
    · rw [run_if_pos ((Key.sameKey_iff key e.key).mpr same), decide_eq_true same]
      rfl
    · rw [run_if_neg (fun equal => same ((Key.sameKey_iff key e.key).mp equal)),
        decide_eq_false same]
      exact ih path (Nat.lt_of_succ_lt_succ enough)

theorem appendTo_run (path : Path t.nodes start (nodes ++ [(a, e)]) 0)
    (enough : nodes.length < fuel) :
    appendTo entry fuel start t = .ok () { t with nodes := setNext t.nodes a entry } := by
  induction nodes generalizing start fuel with
  | nil =>
    obtain ⟨rfl, nonzero, next, found, stop⟩ := path
    obtain rfl : next = 0 := stop
    obtain ⟨fuel, rfl⟩ := Nat.exists_eq_add_one.mpr enough
    unfold appendTo
    rw [run_bind_ok (node_run found), run_if_pos rfl]
    rfl
  | cons cell rest ih =>
    obtain ⟨b, f⟩ := cell
    obtain ⟨rfl, nonzero, next, found, path⟩ := path
    obtain ⟨fuel, rfl⟩ := Nat.exists_eq_add_one.mpr (Nat.zero_lt_of_lt enough)
    have further : next ≠ 0 := by
      cases rest with
      | nil => exact path.1 ▸ path.2.1
      | cons cell rest => exact path.1 ▸ path.2.1
    unfold appendTo
    rw [run_bind_ok (node_run found), run_if_neg further]
    exact ih path (Nat.lt_of_succ_lt_succ enough)

/-! ## The lists of a table -/

/-- The cells whose keys belong to one list of the table. -/
def bucket (t : Table) (cells : List (Nat × Entry)) (i : Nat) : List (Nat × Entry) :=
  cells.filter fun cell => findIndex t cell.2.key = i

/-- The lists of the table consist of the cells, each list in the order of the cells. -/
structure Holds (t : Table) (cells : List (Nat × Entry)) : Prop where
  nodup : (cells.map Prod.fst).Nodup
  small : ∀ cell ∈ cells, cell.1 < 2 ^ 32
  paths : ∀ i, Path t.nodes (t.entries i) (bucket t cells i) 0

theorem mem_bucket : cell ∈ bucket t cells i ↔ cell ∈ cells ∧ findIndex t cell.2.key = i := by
  unfold bucket
  rw [mem_filter, decide_eq_true_iff]

theorem mem_own (member : cell ∈ cells) : cell ∈ bucket t cells (findIndex t cell.2.key) :=
  mem_bucket.mpr ⟨member, rfl⟩

section
variable (holds : Holds t cells)
include holds

theorem Holds.live (member : cell ∈ cells) : ∃ next, t.nodes cell.1 = some ⟨cell.2, next⟩ :=
  (holds.paths _).live cell (mem_own member)

theorem Holds.nonzero (member : cell ∈ cells) : cell.1 ≠ 0 :=
  (holds.paths _).nonzero cell (mem_own member)

/-- An address belongs to one cell. -/
theorem Holds.unique (one : cell ∈ cells) (two : other ∈ cells)
    (same : cell.1 = other.1) : cell = other := by
  have entries := holds.live one
  obtain ⟨next, found⟩ := entries
  obtain ⟨next', found'⟩ := holds.live two
  rw [same, found'] at found
  have equal : other.2 = cell.2 := congrArg Link.value (Option.some.inj found)
  exact Prod.ext same equal.symm

/-- Cells of two lists have different addresses. -/
theorem Holds.apart (different : i ≠ j) (one : cell ∈ bucket t cells i)
    (two : other ∈ bucket t cells j) : cell.1 ≠ other.1 := by
  intro same
  obtain ⟨member, here⟩ := mem_bucket.mp one
  obtain ⟨member', there⟩ := mem_bucket.mp two
  rw [holds.unique member member' same, there] at here
  exact different here.symm

theorem Holds.nodup_bucket (i : Nat) : ((bucket t cells i).map fst).Nodup :=
  holds.nodup.sublist (Sublist.map _ filter_sublist)

end

theorem bucket_length_le (t : Table) (cells : List (Nat × Entry)) (i : Nat) :
    (bucket t cells i).length ≤ cells.length := length_filter_le _ _

/-- The first cell with a key is found in the list of the key. -/
theorem first_bucket (t : Table) (cells : List (Nat × Entry)) (key : Key) :
    first key (bucket t cells (findIndex t key)) = first key cells := by
  unfold first bucket
  rw [find?_filter]
  congr 1
  funext cell
  by_cases same : cell.2.key = key
  · simp [same]
  · simp [same]

section
variable (holds : Holds t cells)
include holds

theorem Holds.getLinkedlistEntry_run (enough : cells.length < fuel) :
    getLinkedlistEntry key fuel (t.entries (findIndex t key)) t =
      .ok (((first key cells).map fst).getD 0) t := by
  rw [Hashmap.getLinkedlistEntry_run (holds.paths _)
    ((bucket_length_le ..).trans_lt enough), first_bucket]

theorem Holds.bucket_nil (null : t.entries i = 0) :
    bucket t cells i = [] := by
  have path := holds.paths i
  rw [null] at path
  cases nodes : bucket t cells i with
  | nil => rfl
  | cons cell rest =>
    rw [nodes] at path
    exact absurd path.1.symm path.2.1

/-- The value of the earliest entry with the key, or the null pointer. -/
def lookup (entries : List Entry) (key : Key) : Nat :=
  ((entries.find? fun entry => entry.key = key).map Entry.value).getD 0

omit holds in
theorem first_entry (key : Key) (cells : List (Nat × Entry)) :
    (first key cells).map snd =
      (cells.map snd).find? fun entry => entry.key = key := by
  rw [find?_map]
  rfl

theorem Holds.hashmapGetEntry_run (enough : cells.length < fuel)
    (key : Key) : hashmapGetEntry fuel key t = .ok (lookup (cells.map snd) key) t := by
  unfold hashmapGetEntry lookup
  rw [run_get, ← first_entry]
  by_cases null : t.entries (findIndex t key) = 0
  · rw [run_if_pos null, ← first_bucket t, holds.bucket_nil null]
    rfl
  rw [run_if_neg null]
  unfold getLinkedlistValue
  rw [run_bind_ok (holds.getLinkedlistEntry_run enough)]
  cases found : first key cells with
  | none => rfl
  | some cell =>
    have member : cell ∈ cells := mem_of_find?_eq_some found
    obtain ⟨next, live⟩ := holds.live member
    exact (run_if_neg (holds.nonzero member)).trans ((run_bind_ok (node_run live)).trans rfl)

/-! ## Adding an entry -/

/-- A node that is not part of any list makes no difference. -/
theorem Holds.allocate (fresh : t.nodes b = none) (link : Link Entry) :
    Holds { t with nodes := update t.nodes b (some link) } cells := by
  refine ⟨holds.nodup, holds.small, fun i => (holds.paths i).congr fun cell member => ?_⟩
  refine update_of_ne ?_ ..
  rintro rfl
  obtain ⟨next, live⟩ := holds.live (mem_bucket.mp member).1
  rw [fresh] at live
  cases live

/-- Only the list `i` changes. -/
theorem Holds.change {nodes : Store Entry} (nodup : (cells'.map fst).Nodup)
    (small : ∀ cell ∈ cells', cell.1 < 2 ^ 32) (own : Path nodes (entries i) (bucket t cells' i) 0)
    (others : ∀ j, i ≠ j → entries j = t.entries j ∧ bucket t cells' j = bucket t cells j)
    (kept : ∀ j, i ≠ j → ∀ cell ∈ bucket t cells j, nodes cell.1 = t.nodes cell.1) :
    Holds { t with nodes, entries } cells' := by
  refine ⟨nodup, small, fun j => ?_⟩
  show Path nodes (entries j) (bucket t cells' j) 0
  by_cases here : i = j
  · exact here ▸ own
  · obtain ⟨start, same⟩ := others j here
    rw [start, same]
    exact (holds.paths j).congr (kept j here)

/-- The null pointer at the end of its list is made to point to a new node. -/
theorem Holds.append (nonzero : b ≠ 0) (low : b < 2 ^ 32)
    (outside : b ∉ cells.map fst) (there : t.nodes b = some ⟨new, 0⟩)
    (enough : cells.length < fuel) :
    ∃ nodes entries, Holds { t with nodes, entries } (cells ++ [(b, new)]) ∧
      linkLast fuel (findIndex t new.key) b t = .ok () { t with nodes, entries } := by
  have nodup : ((cells ++ [(b, new)]).map fst).Nodup := by
    rw [map_append, nodup_append]
    refine ⟨holds.nodup, nodup_singleton _, fun a member c last => ?_⟩
    obtain rfl := mem_singleton.mp last
    rintro rfl
    exact outside member
  have small : ∀ cell ∈ cells ++ [(b, new)], cell.1 < 2 ^ 32 := by
    rw [forall_mem_append, forall_mem_singleton]
    exact ⟨holds.small, low⟩
  have buckets (i : Nat) : bucket t (cells ++ [(b, new)]) i =
      bucket t cells i ++ if findIndex t new.key = i then [(b, new)] else [] := by
    unfold bucket
    by_cases here : findIndex t new.key = i
    · simp [here]
    · simp [here]
  have others (i : Nat) (other : findIndex t new.key ≠ i) :
      bucket t (cells ++ [(b, new)]) i = bucket t cells i := by
    rw [buckets, if_neg other, append_nil]
  by_cases null : t.entries (findIndex t new.key) = 0
  · refine ⟨t.nodes, update t.entries (findIndex t new.key) b,
      holds.change nodup small ?_ (fun i other => ⟨update_of_ne other.symm .., others i other⟩)
        fun _ _ _ _ => rfl, run_if_pos null⟩
    rw [buckets, if_pos rfl, holds.bucket_nil null, update_self]
    exact ⟨rfl, nonzero, 0, there, rfl⟩
  · obtain ⟨front, ⟨a, e⟩, last⟩ : ∃ front cell, bucket t cells (findIndex t new.key) =
        front ++ [cell] := by
      rcases eq_nil_or_concat' (bucket t cells (findIndex t new.key)) with empty | last
      · have path := holds.paths (findIndex t new.key)
        rw [empty] at path
        exact absurd path null
      · exact last
    have path := holds.paths (findIndex t new.key)
    have inside : (a, e) ∈ bucket t cells (findIndex t new.key) := by
      rw [last]
      exact mem_append_right _ mem_cons_self
    have length := bucket_length_le t cells (findIndex t new.key)
    rw [last] at path length
    rw [length_append, length_singleton] at length
    have apart : a ∉ front.map fst := by
      have addresses := holds.nodup_bucket (findIndex t new.key)
      rw [last, map_append, nodup_append] at addresses
      intro member
      exact addresses.2.2 a member a mem_cons_self rfl
    have different : b ≠ a := by
      rintro rfl
      exact outside (mem_map_of_mem (mem_bucket.mp inside).1)
    refine ⟨setNext t.nodes a b, t.entries, holds.change nodup small ?_
      (fun i other => ⟨rfl, others i other⟩) fun i other cell member =>
        setNext_other (holds.apart other.symm member inside),
      (run_if_neg null).trans (appendTo_run path (by omega))⟩
    rw [buckets, if_pos rfl, last]
    exact (path.redirect apart b).append
      ⟨rfl, nonzero, 0, (setNext_other different).trans there, rfl⟩

end

/-! ## Deleting entries -/

/-- `hashmap_delete_entry` can take the entries with the key out of this list: the list
has one entry, or its first entry has another key and is followed by all entries with
the key, if there are any. -/
def Removable (key : Key) : List Entry → Bool
  | head :: next :: rest => head.key ≠ key &&
    ((next :: rest).dropWhile fun entry => entry.key = key).all fun entry => entry.key ≠ key
  | _ => true

theorem Removable.shape
    (removable : Removable key (before ++ entry :: after) = true) (same : entry.key = key)
    (others : ∀ other ∈ before, other.key ≠ key) :
    (before = [] ∧ after = []) ∨
      ∃ head, before = [head] ∧ Removable key (head :: after) = true := by
  cases before with
  | nil =>
    cases after with
    | nil => exact .inl ⟨rfl, rfl⟩
    | cons next rest => simp [Removable, same] at removable
  | cons head before =>
    have different := others head mem_cons_self
    cases before with
    | nil =>
      refine .inr ⟨head, rfl, ?_⟩
      cases after with
      | nil => rfl
      | cons next rest => simpa [Removable, same, different] using removable
    | cons next before =>
      have unlike := others next (mem_cons_of_mem _ mem_cons_self)
      simp [Removable, unlike, same] at removable

/-- The calls of `upon_deletion` for the entries with the key. -/
def deleted (key : Key) (entries : List Entry) : List (Nat × Key × Nat) :=
  (entries.filter fun entry => entry.key = key ∧ entry.uponDeletion ≠ 0).map fun entry =>
    (entry.uponDeletion, entry.key, entry.value)

theorem callUponDeletion_run (entry : Entry) (t : Table) :
    callUponDeletion entry t =
      .ok () { t with deletions := t.deletions ++ deleted entry.key [entry] } := by
  unfold callUponDeletion deleted
  by_cases null : entry.uponDeletion = 0
  · simp [null]
    rfl
  · simp [null]
    rfl

theorem deleted_append (key : Key) (before after : List Entry) :
    deleted key (before ++ after) = deleted key before ++ deleted key after := by
  unfold deleted
  rw [filter_append, map_append]

theorem deleted_none {cells : List (Nat × Entry)} (absent : ∀ cell ∈ cells, cell.2.key ≠ key) :
    deleted key (cells.map snd) = [] := by
  unfold deleted
  rw [map_eq_nil_iff, filter_eq_nil_iff, forall_mem_map]
  intro cell member
  simp [absent cell member]

section Delete
variable {before after : List (Nat × Entry)} {entry : Entry}

theorem bucket_append (t : Table) (before after : List (Nat × Entry)) (i : Nat) :
    bucket t (before ++ after) i = bucket t before i ++ bucket t after i := filter_append ..

theorem bucket_cons_own (t : Table) (a : Nat) (entry : Entry) (after : List (Nat × Entry)) :
    bucket t ((a, entry) :: after) (findIndex t entry.key) =
      (a, entry) :: bucket t after (findIndex t entry.key) :=
  filter_cons_of_pos (by simp)

theorem bucket_cons_other (different : findIndex t entry.key ≠ i) :
    bucket t ((a, entry) :: after) i = bucket t after i :=
  filter_cons_of_neg (by simpa using different)

/-- The first entry with the key is taken out of a list that allows it. -/
theorem Holds.unlink (holds : Holds t (before ++ (a, entry) :: after)) (same : entry.key = key)
    (others : ∀ cell ∈ before, cell.2.key ≠ key)
    (removable : Removable key ((bucket t (before ++ (a, entry) :: after)
      (findIndex t key)).map snd) = true) (found : t.nodes a = some ⟨entry, link⟩) :
    ∃ nodes entries, Holds { t with nodes, entries } (before ++ after) ∧
      Removable key ((bucket t (before ++ after) (findIndex t key)).map snd) = true ∧
      Hashmap.unlink (findIndex t key) a link
        { t with nodes := update t.nodes a none } = .ok () { t with nodes, entries } := by
  subst same
  have nodup := holds.nodup
  rw [map_append, map_cons] at nodup
  obtain ⟨absent, nodup'⟩ := nodup_cons.mp (nodup_middle.mp nodup)
  rw [← map_append] at absent nodup'
  have outside : ∀ cell ∈ before ++ after, cell.1 ≠ a := by
    rintro cell member rfl
    exact absent (mem_map.mpr ⟨cell, member, rfl⟩)
  have small' : ∀ cell ∈ before ++ after, cell.1 < 2 ^ 32 := fun cell member =>
    holds.small cell (((sublist_cons_self ..).append_left before).subset member)
  -- the other lists keep their cells, none of which is the one that goes
  have elsewhere (i : Nat) (other : findIndex t entry.key ≠ i) :
      bucket t (before ++ after) i = bucket t (before ++ (a, entry) :: after) i := by
    rw [bucket_append, bucket_append, bucket_cons_other other]
  have kept (i : Nat) (other : findIndex t entry.key ≠ i) :
      ∀ cell ∈ bucket t (before ++ (a, entry) :: after) i,
        update t.nodes a none cell.1 = t.nodes cell.1 := by
    intro cell member
    rw [← elsewhere i other] at member
    exact update_of_ne (outside cell (mem_bucket.mp member).1) ..
  have path := holds.paths (findIndex t entry.key)
  rw [bucket_append, bucket_cons_own] at path removable
  rw [map_append, map_cons] at removable
  have others' : ∀ other ∈ (bucket t before (findIndex t entry.key)).map snd,
      other.key ≠ entry.key := by
    intro other member
    obtain ⟨cell, inside, rfl⟩ := mem_map.mp member
    exact others cell (mem_bucket.mp inside).1
  rw [bucket_append, map_append]
  rcases Removable.shape removable rfl others' with ⟨none_before, none_after⟩ | ⟨head, one, rest⟩
  · have none_before := map_eq_nil_iff.mp none_before
    have none_after := map_eq_nil_iff.mp none_after
    rw [none_before, none_after] at path ⊢
    have here := path.1
    refine ⟨update t.nodes a none, update t.entries (findIndex t entry.key) 0,
      holds.change nodup' small' ?_ (fun i other =>
        ⟨update_of_ne other.symm .., elsewhere i other⟩) kept, rfl, ?_⟩
    · rw [update_self, bucket_append, none_before, none_after]
      rfl
    · unfold Hashmap.unlink
      rw [run_get, run_if_neg (not_not.mpr here)]
      rfl
  · obtain ⟨⟨b, first⟩, alone, rfl⟩ := map_eq_singleton_iff.mp one
    rw [alone] at path ⊢
    obtain ⟨start, nonzero, middle, live, rfl, _, stop, found', path⟩ := path
    obtain rfl : stop = link := congrArg Link.next (Option.some.inj (found'.symm.trans found))
    have inside : (b, first) ∈ before :=
      (mem_bucket.mp (by rw [alone]; exact mem_cons_self)).1
    have different : b ≠ middle := outside (b, first) (mem_append_left _ inside)
    have live' : update t.nodes middle none b = some ⟨first, middle⟩ :=
      (update_of_ne different ..).trans live
    have mine : (b, first) ∈ bucket t (before ++ (middle, entry) :: after)
        (findIndex t entry.key) := by
      rw [bucket_append, alone]
      exact mem_cons_self
    refine ⟨setNext (update t.nodes middle none) b stop, t.entries,
      holds.change nodup' small' ?_ (fun i other => ⟨rfl, elsewhere i other⟩)
        fun i other cell member => (setNext_other (holds.apart other.symm member mine)).trans
          (kept i other cell member), rest, ?_⟩
    · rw [bucket_append, alone]
      refine ⟨start, nonzero, stop, ?_, path.congr fun cell member => ?_⟩
      · unfold setNext
        rw [update_self, live']
        rfl
      · have member := (mem_bucket.mp member).1
        rw [setNext_other, update_of_ne (outside cell (mem_append_right _ member))]
        rintro rfl
        rw [map_append, nodup_append] at nodup'
        exact nodup'.2.2 _ (mem_map_of_mem inside) _ (mem_map_of_mem member) rfl
    · unfold Hashmap.unlink
      rw [run_get, run_if_pos (by rw [start]; exact different), start,
        run_bind_ok (node_run live')]
      rfl

/-- `hashmap_delete_entry` on a list that allows it. -/
theorem Holds.hashmapDeleteEntry_run (holds : Holds t cells) (enough : cells.length < fuel)
    (removable : Removable key ((bucket t cells (findIndex t key)).map snd) = true)
    (deep : cells.countP (·.2.key = key) < depth)
    (counted : cells.countP (·.2.key = key) ≤ t.numEntries) (low : t.numEntries < 2 ^ 32) :
    ∃ nodes entries,
      Holds { t with nodes, entries } (cells.filter (·.2.key ≠ key)) ∧
      hashmapDeleteEntry fuel key depth t =
        .ok (if cells.countP (·.2.key = key) = 0 then 0 else 1)
          { t with
            nodes, entries
            numEntries := t.numEntries - cells.countP (·.2.key = key)
            deletions := t.deletions ++ deleted key (cells.map snd) } := by
  induction depth generalizing t cells with
  | zero => cases deep
  | succ depth ih =>
    cases found : first key cells with
    | none =>
      have absent : ∀ cell ∈ cells, cell.2.key ≠ key := by
        intro cell member
        simpa using find?_eq_none.mp found cell member
      have none_counted : cells.countP (·.2.key = key) = 0 :=
        countP_eq_zero.mpr fun cell member => by simpa using absent cell member
      have all_kept : cells.filter (·.2.key ≠ key) = cells :=
        filter_eq_self.mpr fun cell member => by simpa using absent cell member
      refine ⟨t.nodes, t.entries, ?_, ?_⟩
      · rw [all_kept]
        exact holds
      · rw [none_counted, deleted_none absent, append_nil]
        unfold hashmapDeleteEntry
        rw [run_get]
        by_cases null : t.entries (findIndex t key) = 0
        · rw [run_if_pos null]
          rfl
        · rw [run_if_neg null, run_bind_ok (holds.getLinkedlistEntry_run enough), found]
          rfl
    | some cell =>
      obtain ⟨matches', before, after, rfl, unlike⟩ := find?_eq_some_iff_append.mp found
      obtain ⟨a, entry⟩ := cell
      have same : entry.key = key := by simpa using matches'
      have others : ∀ cell ∈ before, cell.2.key ≠ key := fun cell member => by
        simpa using unlike cell member
      have member : (a, entry) ∈ before ++ (a, entry) :: after :=
        mem_append_right _ mem_cons_self
      obtain ⟨next, live⟩ := holds.live member
      have called : Holds { t with deletions := t.deletions ++ deleted key [entry] }
          (before ++ (a, entry) :: after) := ⟨holds.nodup, holds.small, holds.paths⟩
      obtain ⟨nodes, entries, holds', removable', unlinked⟩ :=
        called.unlink same others removable live
      have count : (before ++ (a, entry) :: after).countP (·.2.key = key) =
          (before ++ after).countP (·.2.key = key) + 1 := by
        simp [countP_append, same]
        omega
      have kept : (before ++ (a, entry) :: after).filter (·.2.key ≠ key) =
          (before ++ after).filter (·.2.key ≠ key) := by
        simp [filter_append, same]
      have log : deleted key ((before ++ (a, entry) :: after).map snd) =
          deleted key [entry] ++ deleted key ((before ++ after).map snd) := by
        rw [map_append, map_append, map_cons, deleted_append, deleted_append,
          deleted_none others, ← singleton_append, deleted_append]
        rfl
      rw [count] at deep counted ⊢
      rw [kept, log]
      obtain ⟨nodes', entries', final, ran⟩ := @ih
        { t with nodes, entries, deletions := t.deletions ++ deleted key [entry] } (before ++ after)
        ⟨holds'.nodup, holds'.small, holds'.paths⟩ (by simp at enough ⊢; omega) removable'
        (by omega) (show _ ≤ t.numEntries by omega) low
      refine ⟨nodes', entries', ⟨final.nodup, final.small, final.paths⟩, ?_⟩
      have nonnull : t.entries (findIndex t key) ≠ 0 := by
        intro null
        have own := mem_own (t := t) member
        rw [show findIndex t (a, entry).2.key = findIndex t key from congrArg _ same,
          holds.bucket_nil null] at own
        exact absurd own not_mem_nil
      have searched : getLinkedlistEntry key fuel (t.entries (findIndex t key)) t = .ok a t := by
        rw [holds.getLinkedlistEntry_run enough, found]
        rfl
      have logged : callUponDeletion entry t =
          .ok () { t with deletions := t.deletions ++ deleted key [entry] } := by
        rw [callUponDeletion_run, same]
      have fewer : sub32 (t.numEntries - (before ++ after).countP (·.2.key = key)) 1 =
          t.numEntries - ((before ++ after).countP (·.2.key = key) + 1) := by
        rw [sub32_eq (by omega) (by omega)]
        omega
      unfold hashmapDeleteEntry
      rw [run_get, run_if_neg nonnull, run_bind_ok searched, run_if_neg (holds.nonzero member),
        run_bind_ok (node_run live), run_bind_ok logged]
      refine (run_bind_ok rfl).trans ((run_bind_ok unlinked).trans ((run_bind_ok ran).trans ?_))
      rw [if_neg (Nat.succ_ne_zero _), ← fewer, ← append_assoc]
      rfl

end Delete

/-! ## Runs -/

inductive Call where
  | add (key : Key) (value uponDeletion : Nat) (doNotAllocateKey : Bool) (place : Option Nat)
      (copied : Bool)
  | get (key : Key)
  | delete (key : Key)

namespace Call

/-- The call, with at most `fuel` steps along a list and nested calls. -/
def perform (fuel : Nat) : Call → TableM Nat
  | add key value uponDeletion doNotAllocateKey place copied =>
    hashmapAddEntry fuel key value uponDeletion doNotAllocateKey place copied
  | get key => hashmapGetEntry fuel key
  | delete key => hashmapDeleteEntry fuel key fuel

/-- The entries after the call; `entries` are those before it, the earliest first. -/
def after (entries : List Entry) : Call → List Entry
  | add key value uponDeletion doNotAllocateKey place copied =>
    if place.isSome && (doNotAllocateKey || copied)
    then entries ++ [⟨key, !doNotAllocateKey, value, uponDeletion⟩] else entries
  | get _ => entries
  | delete key => entries.filter (·.key ≠ key)

/-- What the call returns. -/
def answer (entries : List Entry) : Call → Nat
  | add _ _ _ doNotAllocateKey place copied =>
    if place.isSome && (doNotAllocateKey || copied) then 1 else 0
  | get key => lookup entries key
  | delete key => if entries.any (·.key = key) then 1 else 0

/-- The calls of `upon_deletion`. -/
def callbacks (entries : List Entry) : Call → List (Nat × Key × Nat)
  | delete key => deleted key entries
  | _ => []

/-- `kmalloc` returns a pointer to memory that is not in use. -/
def Granted (t : Table) : Call → Prop
  | add _ _ _ _ (some entry) _ => entry ≠ 0 ∧ entry < 2 ^ 32 ∧ t.nodes entry = none
  | _ => True

/-- The list of a key that is deleted allows it. -/
def Spread (t : Table) : Call → Prop
  | delete key => ∀ nodes, Path t.nodes (t.entries (findIndex t key)) nodes 0 →
    Removable key (nodes.map Prod.snd) = true
  | _ => True

end Call

/-- The table answers for every key as the entries do, and `num_entries` is the number of
entries in its lists. -/
structure Consistent (fuel : Nat) (t : Table) (entries : List Entry) : Prop where
  answers : ∀ key, hashmapGetEntry fuel key t = .ok (lookup entries key) t
  reachable : ∃ lists : Nat → List (Nat × Entry),
    (∀ i < t.size, Path t.nodes (t.entries i) (lists i) 0) ∧
      t.numEntries = ∑ i ∈ Finset.range t.size, (lists i).length

/-- Every call returns what it should and calls back once for each entry it deletes, and
the table is consistent throughout. -/
def AlwaysMap (fuel : Nat) : List Call → Table → List Entry → Prop
  | [], t, entries => Consistent fuel t entries
  | call :: calls, t, entries => Consistent fuel t entries ∧
    ∃ t', call.perform fuel t = .ok (call.answer entries) t' ∧
      t'.deletions = t.deletions ++ call.callbacks entries ∧
      AlwaysMap fuel calls t' (call.after entries)

/-- Every call meets the condition in the state it starts in. -/
def Meets (condition : Table → Call → Prop) (fuel : Nat) : List Call → Table → Prop
  | [], _ => True
  | call :: calls, t => condition t call ∧
    ∀ rc t', call.perform fuel t = .ok rc t' → Meets condition fuel calls t'

/-- The table consists of the entries. -/
structure Represents (t : Table) (entries : List Entry) (cells : List (Nat × Entry)) : Prop where
  holds : Holds t cells
  same : cells.map Prod.snd = entries
  count : t.numEntries = cells.length
  wide : 0 < t.size

theorem Holds.length_lt (holds : Holds t cells) : cells.length < 2 ^ 32 := by
  have nodup : (0 :: cells.map fst).Nodup := by
    refine nodup_cons.mpr ⟨fun member => ?_, holds.nodup⟩
    obtain ⟨cell, inside, null⟩ := mem_map.mp member
    exact holds.nonzero inside null
  have bounded : 0 :: cells.map fst ⊆ range (2 ^ 32) := by
    intro a member
    rcases mem_cons.mp member with rfl | member
    · exact mem_range.mpr (by decide)
    · obtain ⟨cell, inside, rfl⟩ := mem_map.mp member
      exact mem_range.mpr (holds.small cell inside)
  have length := (nodup.subperm bounded).length_le
  rw [length_cons, length_map, length_range] at length
  exact length

/-- Every cell is in one of the lists. -/
theorem sum_buckets (wide : 0 < t.size) (cells : List (Nat × Entry)) :
    ∑ i ∈ Finset.range t.size, (bucket t cells i).length = cells.length := by
  induction cells with
  | nil => exact Finset.sum_eq_zero fun _ _ => rfl
  | cons cell rest ih =>
    have each (i : Nat) : (bucket t (cell :: rest) i).length =
        (if findIndex t cell.2.key = i then 1 else 0) + (bucket t rest i).length := by
      unfold bucket
      by_cases here : findIndex t cell.2.key = i
      · simp [here]
        omega
      · simp [here]
    have inside : findIndex t cell.2.key ∈ Finset.range t.size :=
      Finset.mem_range.mpr (Nat.mod_lt _ wide)
    rw [Finset.sum_congr rfl fun i _ => each i, Finset.sum_add_distrib, ih, Finset.sum_ite_eq,
      if_pos inside, length_cons, add_comm]

theorem Represents.consistent (represents : Represents t entries cells)
    (enough : cells.length < fuel) : Consistent fuel t entries := by
  refine ⟨fun key => ?_, bucket t cells, fun i _ => represents.holds.paths i, ?_⟩
  · rw [← represents.same]
    exact represents.holds.hashmapGetEntry_run enough key
  · rw [sum_buckets represents.wide]
    exact represents.count

section Step
variable {entries : List Entry} (represents : Represents t entries cells)
  (enough : cells.length < fuel)
include represents enough

theorem Represents.add (key : Key) (value uponDeletion : Nat) (doNotAllocateKey copied : Bool)
    (place : Option Nat)
    (granted : (Call.add key value uponDeletion doNotAllocateKey place copied).Granted t) :
    ∃ t' cells', hashmapAddEntry fuel key value uponDeletion doNotAllocateKey place copied t =
        .ok (if place.isSome && (doNotAllocateKey || copied) then 1 else 0) t' ∧
      t'.deletions = t.deletions ∧
      Represents t' (if place.isSome && (doNotAllocateKey || copied)
        then entries ++ [⟨key, !doNotAllocateKey, value, uponDeletion⟩] else entries) cells' ∧
      cells'.length ≤ cells.length + 1 := by
  cases place with
  | none => exact ⟨t, cells, rfl, rfl, represents, Nat.le_succ _⟩
  | some b =>
    obtain ⟨nonzero, low, fresh⟩ := granted
    have allocated := represents.holds.allocate fresh
      ⟨⟨key, !doNotAllocateKey, value, uponDeletion⟩, 0⟩
    rw [show (some b).isSome = true from rfl, Bool.true_and]
    by_cases failed : (!doNotAllocateKey && !copied) = true
    · have refused : (doNotAllocateKey || copied) = false := by
        simpa using failed
      rw [refused]
      exact ⟨_, cells, (run_bind_ok rfl).trans (run_if_pos failed), rfl,
        ⟨allocated, represents.same, represents.count, represents.wide⟩, Nat.le_succ _⟩
    · have accepted : (doNotAllocateKey || copied) = true := by
        cases doNotAllocateKey <;> cases copied <;> simp at failed ⊢
      have outside : b ∉ cells.map fst := by
        intro member
        obtain ⟨cell, inside, rfl⟩ := mem_map.mp member
        obtain ⟨next, live⟩ := represents.holds.live inside
        rw [fresh] at live
        cases live
      have there : update t.nodes b (some ⟨⟨key, !doNotAllocateKey, value, uponDeletion⟩, 0⟩)
          b = some ⟨⟨key, !doNotAllocateKey, value, uponDeletion⟩, 0⟩ := update_self ..
      obtain ⟨nodes, lists, holds, ran⟩ := allocated.append nonzero low outside there enough
      have count : wrap32 (t.numEntries + 1) = (cells ++ [(b,
          (⟨key, !doNotAllocateKey, value, uponDeletion⟩ : Entry))]).length := by
        have bound := holds.length_lt
        rw [length_append, length_singleton] at bound ⊢
        unfold wrap32
        rw [represents.count, Nat.mod_eq_of_lt bound]
      rw [accepted]
      refine ⟨{ t with nodes, entries := lists, numEntries := wrap32 (t.numEntries + 1) }, _,
        (run_bind_ok rfl).trans ((run_if_neg failed).trans (run_get.trans
          ((run_bind_ok ran).trans (run_bind_ok rfl)))), rfl,
        ⟨⟨holds.nodup, holds.small, holds.paths⟩, ?_, count, represents.wide⟩, ?_⟩
      · rw [if_pos rfl, map_append, represents.same]
        rfl
      · rw [length_append, length_singleton]

theorem Represents.delete (key : Key) (spread : (Call.delete key).Spread t) :
    ∃ t' cells', hashmapDeleteEntry fuel key fuel t =
        .ok (if entries.any (·.key = key) then 1 else 0) t' ∧
      t'.deletions = t.deletions ++ deleted key entries ∧
      Represents t' (entries.filter (·.key ≠ key)) cells' ∧ cells'.length ≤ cells.length := by
  have count := represents.count
  have bound := represents.holds.length_lt
  have some_counted : cells.countP (·.2.key = key) ≤ cells.length := countP_le_length
  have deep := some_counted.trans_lt enough
  obtain ⟨nodes, lists, holds, ran⟩ := represents.holds.hashmapDeleteEntry_run enough
    (spread _ (represents.holds.paths _)) deep (by omega) (by omega)
  have kept : (cells.filter (·.2.key ≠ key)).length =
      cells.length - cells.countP (·.2.key = key) := by
    have total := cells.length_eq_countP_add_countP fun cell => decide (cell.2.key = key)
    rw [← countP_eq_length_filter]
    simp only [decide_not, Bool.not_eq_true, decide_eq_false_iff_not] at total ⊢
    omega
  have answered : (cells.countP (·.2.key = key) = 0) = ¬ entries.any (·.key = key) = true := by
    rw [← represents.same]
    simp [countP_eq_zero]
  refine ⟨{ t with
      nodes, entries := lists
      numEntries := t.numEntries - cells.countP (·.2.key = key)
      deletions := t.deletions ++ deleted key (cells.map snd) }, _, ran.trans ?_, ?_,
    ⟨⟨holds.nodup, holds.small, holds.paths⟩, ?_, ?_, represents.wide⟩, length_filter_le ..⟩
  · simp only [answered, ite_not]
  · rw [represents.same]
  · rw [← represents.same, filter_map]
    rfl
  · rw [kept, count]

theorem Represents.step (call : Call) (granted : call.Granted t) (spread : call.Spread t) :
    ∃ t' cells', call.perform fuel t = .ok (call.answer entries) t' ∧
      t'.deletions = t.deletions ++ call.callbacks entries ∧
      Represents t' (call.after entries) cells' ∧ cells'.length ≤ cells.length + 1 := by
  cases call with
  | add key value uponDeletion doNotAllocateKey place copied =>
    obtain ⟨t', cells', ran, log, represents', length⟩ :=
      represents.add enough key value uponDeletion doNotAllocateKey copied place granted
    exact ⟨t', cells', ran, log.trans (append_nil _).symm, represents', length⟩
  | get key =>
    refine ⟨t, cells, ?_, (append_nil _).symm, represents, Nat.le_succ _⟩
    exact (represents.consistent enough).answers key
  | delete key =>
    obtain ⟨t', cells', ran, log, represents', length⟩ := represents.delete enough key spread
    exact ⟨t', cells', ran, log, represents', Nat.le_succ_of_le length⟩

end Step

theorem Represents.run (represents : Represents t entries cells)
    (calls : List Call) (enough : cells.length + calls.length < fuel)
    (granted : Meets Call.Granted fuel calls t) (spread : Meets Call.Spread fuel calls t) :
    AlwaysMap fuel calls t entries := by
  induction calls generalizing t entries cells with
  | nil => exact represents.consistent enough
  | cons call calls ih =>
    have room : cells.length < fuel := (Nat.le_add_right _ _).trans_lt enough
    obtain ⟨t', cells', ran, log, represents', length⟩ :=
      represents.step room call granted.1 spread.1
    rw [length_cons] at enough
    exact ⟨represents.consistent room, t', ran, log, ih represents' (by omega)
      (granted.2 _ t' ran) (spread.2 _ t' ran)⟩

theorem represents_create (wide : 0 < size) (hashFunction : List UInt8 → Nat) :
    Represents (hashmapCreate size hashFunction) [] [] :=
  ⟨⟨nodup_nil, forall_mem_nil _, fun _ => rfl⟩, rfl, rfl, wide⟩

theorem hashmap_runs_as_map_when_spread (size : Nat) (hashFunction : List UInt8 → Nat)
    (calls : List Call) (fuel : Nat) (wide : 0 < size) (enough : calls.length < fuel)
    (granted : Meets Call.Granted fuel calls (hashmapCreate size hashFunction))
    (spread : Meets Call.Spread fuel calls (hashmapCreate size hashFunction)) :
    AlwaysMap fuel calls (hashmapCreate size hashFunction) [] :=
  (represents_create wide hashFunction).run calls (by simpa using enough) granted spread

/-- The string of one character. -/
def letter (c : UInt8) (nonzero : c ≠ 0) : Key :=
  ⟨[c], fun member => nonzero (List.mem_singleton.mp member).symm⟩

theorem hashmap_runs_as_map_when_spread_once :
    AlwaysMap 4 [.add (letter 97 (by decide)) 7 0 true (some 0x100) true,
      .delete (letter 97 (by decide)), .get (letter 97 (by decide))]
      (hashmapCreate 1 fun _ => 0) [] := by
  refine hashmap_runs_as_map_when_spread 1 _ _ 4 (by decide) (by decide)
    ⟨⟨by decide, by decide, rfl⟩, fun _ _ _ => ⟨trivial, fun _ _ _ => ⟨trivial, fun _ _ _ => trivial⟩⟩⟩
    ⟨trivial, fun rc t ran => ⟨fun nodes path => ?_, fun _ _ _ => ⟨trivial, fun _ _ _ => trivial⟩⟩⟩
  injection ran with _ same
  subst same
  match nodes, path with
  | [], _ | [_], _ => rfl
  | (a, _) :: _ :: _, ⟨first, _, _, found, second, nonzero, _⟩ =>
    obtain rfl : a = 0x100 := first.symm
    cases found
    exact absurd second.symm nonzero

/-- Two entries in one list; the first is deleted and the second looked up. -/
def afterDelete : List Call :=
  [.add (letter 97 (by decide)) 1 0 true (some 0x100) true,
    .add (letter 98 (by decide)) 2 0 true (some 0x200) true,
    .delete (letter 97 (by decide))]

/-- The run of some calls, whatever they return. -/
def performAll (fuel : Nat) : List Call → TableM Unit
  | [] => pure ()
  | call :: calls => do
    let _ ← call.perform fuel
    performAll fuel calls

/-- In a run that behaves as a map every later look-up does. -/
theorem AlwaysMap.final (always : AlwaysMap fuel calls t entries) :
    ∃ t', performAll fuel calls t = .ok () t' ∧
      Consistent fuel t' (calls.foldl Call.after entries) := by
  induction calls generalizing t entries with
  | nil => exact ⟨t, rfl, always⟩
  | cons call calls ih =>
    obtain ⟨-, t', ran, -, rest⟩ := always
    obtain ⟨u, ran', consistent⟩ := ih rest
    exact ⟨u, (run_bind_ok ran).trans ran', consistent⟩

/-- What a look-up finds after the three calls. -/
def lookedUp (key : Key) (t : Table) : Option Nat :=
  match performAll 4 afterDelete t with
  | .error _ _ => none
  | .ok _ t' =>
    match hashmapGetEntry 4 key t' with
    | .error _ _ => none
    | .ok value _ => some value

theorem delete_drops_whole_list :
    Meets Call.Granted 4 afterDelete (hashmapCreate 1 fun _ => 0) ∧
      ¬ AlwaysMap 4 afterDelete (hashmapCreate 1 fun _ => 0) [] := by
  refine ⟨⟨⟨by decide, by decide, rfl⟩, fun rc t ran => ⟨?_, fun _ _ _ =>
    ⟨trivial, fun _ _ _ => trivial⟩⟩⟩, fun always => ?_⟩
  · injection ran with _ same
    subst same
    exact ⟨by decide, by decide, rfl⟩
  · obtain ⟨t, ran, consistent⟩ := always.final
    have evaluated : lookedUp (letter 98 (by decide)) (hashmapCreate 1 fun _ => 0) = some 0 := by
      decide +kernel
    unfold lookedUp at evaluated
    rw [ran] at evaluated
    dsimp only at evaluated
    rw [consistent.answers] at evaluated
    exact absurd (Option.some.inj evaluated) (by decide)

end SbOS.Kernel.Hashmap
