import Mathlib.Data.List.Induction
import Mathlib.Data.List.Sort
import Mathlib.Data.List.TakeWhile
import Mathlib.Data.Int.Order.Basic

/-! # Association lists sorted by a three-way comparison

The comparison is a C-style function whose sign is the order. Keys may repeat:
a new entry goes in front of the entries with an equal key, so the first entry
of a key is always its newest one.
-/

namespace Foundation

variable {κ ν : Type}

/-- The sign of `cmp` is a total preorder. -/
structure CmpOrder (cmp : κ → κ → Int) : Prop where
  swap : ∀ a b, 0 < cmp a b ↔ cmp b a < 0
  trans : ∀ a b c, cmp a b ≤ 0 → cmp b c ≤ 0 → cmp a c ≤ 0

namespace CmpOrder

variable {cmp : κ → κ → Int}

theorem self (hcmp : CmpOrder cmp) (a : κ) : cmp a a = 0 := by
  have hswap := hcmp.swap a a
  omega

/-- Comparing equal in one direction is comparing equal in the other. -/
theorem eq_zero_comm (hcmp : CmpOrder cmp) {a b : κ} (heq : cmp a b = 0) : cmp b a = 0 := by
  have hab := hcmp.swap a b
  have hba := hcmp.swap b a
  omega

theorem eq_zero_trans (hcmp : CmpOrder cmp) {a b c : κ} (hab : cmp a b = 0) (hbc : cmp b c = 0) :
    cmp a c = 0 := by
  have hle := hcmp.trans a b c (by omega) (by omega)
  have hba := hcmp.eq_zero_comm hab
  have hcb := hcmp.eq_zero_comm hbc
  have hge := hcmp.trans c b a (by omega) (by omega)
  have hswap := hcmp.swap c a
  omega

theorem total (hcmp : CmpOrder cmp) (a b : κ) : cmp a b ≤ 0 ∨ cmp b a ≤ 0 := by
  have hswap := hcmp.swap a b
  omega

end CmpOrder

/-- One write to a table. -/
inductive AssocOp (κ ν : Type) where
  | put (key : κ) (value : ν)
  | replace (key : κ) (value : ν)
  deriving DecidableEq, Repr

namespace AssocOp

def key : AssocOp κ ν → κ
  | put key _ => key
  | replace key _ => key

def value : AssocOp κ ν → ν
  | put _ value => value
  | replace _ value => value

end AssocOp

namespace Assoc

variable (cmp : κ → κ → Int)

/-- The entry order: keys ascend, and equal keys may be neighbours. -/
def Le (left right : κ × ν) : Prop := cmp left.1 right.1 ≤ 0

instance : DecidableRel (Le (ν := ν) cmp) := fun left right =>
  inferInstanceAs (Decidable (cmp left.1 right.1 ≤ 0))

def Sorted (entries : List (κ × ν)) : Prop := entries.Pairwise (Le cmp)

/-- The entries in front of `key`. -/
def below (key : κ) (entry : κ × ν) : Bool := 0 < cmp key entry.1

/-- The suffix that starts at the first entry whose key is not below `key`. -/
def lowerBound (key : κ) (entries : List (κ × ν)) : List (κ × ν) :=
  entries.dropWhile (below cmp key)

def put (key : κ) (value : ν) (entries : List (κ × ν)) : List (κ × ν) :=
  entries.orderedInsert (Le cmp) (key, value)

def get (key : κ) (entries : List (κ × ν)) : Option ν :=
  match lowerBound cmp key entries with
  | [] => none
  | entry :: _ => if cmp key entry.1 = 0 then some entry.2 else none

/-- Overwrite the newest entry of `key`, or insert one. -/
def replace (key : κ) (value : ν) (entries : List (κ × ν)) : List (κ × ν) :=
  match lowerBound cmp key entries with
  | [] => put cmp key value entries
  | entry :: rest =>
      if cmp key entry.1 = 0 then
        entries.takeWhile (below cmp key) ++ (entry.1, value) :: rest
      else put cmp key value entries

def apply (entries : List (κ × ν)) : AssocOp κ ν → List (κ × ν)
  | .put key value => put cmp key value entries
  | .replace key value => replace cmp key value entries

def run (ops : List (AssocOp κ ν)) : List (κ × ν) := ops.foldl (apply cmp) []

/-- The value of the latest operation on `key`. -/
def latest (key : κ) (ops : List (AssocOp κ ν)) : Option ν :=
  (ops.reverse.find? fun op => cmp key op.key = 0).map AssocOp.value

variable {cmp}

/-- `put` splits the list at the lower bound of the key and writes the entry between the parts,
so it stands in front of every equal key. -/
theorem put_eq (key : κ) (value : ν) (entries : List (κ × ν)) :
    put cmp key value entries =
      entries.takeWhile (below cmp key) ++ (key, value) :: lowerBound cmp key entries := by
  have hbelow : (fun entry : κ × ν => decide ¬ Le cmp (key, value) entry) = below cmp key := by
    funext entry
    simp [Le, below]
  rw [put, List.orderedInsert_eq_take_drop, hbelow]
  rfl

/-! ### Mapping the values -/

section Map

variable {μ : Type} (f : ν → μ)

theorem lowerBound_map (key : κ) (entries : List (κ × ν)) :
    lowerBound cmp key (entries.map (Prod.map id f)) =
      (lowerBound cmp key entries).map (Prod.map id f) := by
  rw [lowerBound, List.dropWhile_map]
  rfl

/-- `put` treats the values as they are, so they can be mapped before or afterwards. -/
theorem put_map (key : κ) (value : ν) (entries : List (κ × ν)) :
    put cmp key (f value) (entries.map (Prod.map id f)) =
      (put cmp key value entries).map (Prod.map id f) := by
  rw [put_eq, put_eq, lowerBound_map, List.takeWhile_map, List.map_append, List.map_cons]
  rfl

/-- Looking up a mapped list gives the mapped value. -/
theorem get_map (key : κ) (entries : List (κ × ν)) :
    get cmp key (entries.map (Prod.map id f)) = (get cmp key entries).map f := by
  rw [get, get, lowerBound_map]
  cases lowerBound cmp key entries with
  | nil => rfl
  | cons entry rest =>
      by_cases heq : cmp key entry.1 = 0
      · simp [heq]
      · simp [heq]

end Map

/-- The two parts at a lower bound make up the list. -/
theorem takeWhile_append_lowerBound (key : κ) (entries : List (κ × ν)) :
    entries.takeWhile (below cmp key) ++ lowerBound cmp key entries = entries :=
  List.takeWhile_append_dropWhile

/-- The entry at the lower bound is not below the key. -/
theorem head_lowerBound_not_below {key : κ} {entries : List (κ × ν)} {entry : κ × ν}
    {rest : List (κ × ν)} (hbound : lowerBound cmp key entries = entry :: rest) :
    below cmp key entry = false := by
  have hhead := List.head?_dropWhile_not (below cmp key) entries
  rw [show entries.dropWhile (below cmp key) = entry :: rest from hbound] at hhead
  simpa using hhead

theorem get_cons (key : κ) (entry : κ × ν) (rest : List (κ × ν)) :
    get cmp key (entry :: rest) =
      if 0 < cmp key entry.1 then get cmp key rest
      else if cmp key entry.1 = 0 then some entry.2 else none := by
  by_cases hbelow : 0 < cmp key entry.1
  · simp [get, lowerBound, below, hbelow]
  · simp [get, lowerBound, below, hbelow]

theorem put_cons (key : κ) (value : ν) (entry : κ × ν) (rest : List (κ × ν)) :
    put cmp key value (entry :: rest) =
      if 0 < cmp key entry.1 then entry :: put cmp key value rest
      else (key, value) :: entry :: rest := by
  by_cases hbelow : 0 < cmp key entry.1
  · have hnot : ¬ cmp key entry.1 ≤ 0 := by omega
    simp [put, Le, hbelow, hnot]
  · have hle : cmp key entry.1 ≤ 0 := by omega
    simp [put, Le, hbelow, hle]

/-- `replace` by the comparison with the first key. -/
theorem replace_cons (key : κ) (value : ν) (entry : κ × ν) (rest : List (κ × ν)) :
    replace cmp key value (entry :: rest) =
      if 0 < cmp key entry.1 then entry :: replace cmp key value rest
      else if cmp key entry.1 = 0 then (entry.1, value) :: rest
      else (key, value) :: entry :: rest := by
  by_cases hbelow : 0 < cmp key entry.1
  · simp only [replace, lowerBound, below, hbelow, decide_true, List.dropWhile_cons_of_pos,
      List.takeWhile_cons_of_pos, if_true, put_cons, List.cons_append]
    split
    · rfl
    · split <;> rfl
  · simp [replace, lowerBound, below, hbelow, put_cons]

theorem replace_of_get_none {key : κ} {value : ν} {entries : List (κ × ν)}
    (hnone : get cmp key entries = none) :
    replace cmp key value entries = put cmp key value entries := by
  unfold get at hnone
  unfold replace
  split
  · rfl
  next entry rest hbound =>
    rw [hbound] at hnone
    by_cases heq : cmp key entry.1 = 0
    · simp [heq] at hnone
    · rw [if_neg heq]

/-- Overwriting a present key keeps every key in its place. -/
theorem replace_keys_of_get_some {key : κ} {value old : ν} {entries : List (κ × ν)}
    (hsome : get cmp key entries = some old) :
    (replace cmp key value entries).map Prod.fst = entries.map Prod.fst := by
  induction entries with
  | nil => simp [get, lowerBound] at hsome
  | cons entry rest ih =>
      rw [get_cons] at hsome
      rw [replace_cons]
      split at hsome
      next hbelow => simp [hbelow, ih hsome]
      next hbelow =>
        split at hsome
        next heq => simp [heq]
        next hne => simp at hsome

/-- Where a present key is found, and what overwriting it leaves. -/
theorem exists_split_of_get_some {key : κ} {old : ν} {entries : List (κ × ν)}
    (hsome : get cmp key entries = some old) :
    ∃ front found back, entries = front ++ (found, old) :: back ∧ cmp key found = 0 ∧
      ∀ value, replace cmp key value entries = front ++ (found, value) :: back := by
  induction entries with
  | nil => simp [get, lowerBound] at hsome
  | cons entry rest ih =>
      rw [get_cons] at hsome
      split at hsome
      next hbelow =>
        obtain ⟨front, found, back, hentries, hfound, hreplace⟩ := ih hsome
        refine ⟨entry :: front, found, back, by rw [hentries, List.cons_append], hfound, ?_⟩
        intro value
        rw [replace_cons, if_pos hbelow, hreplace, List.cons_append]
      next hbelow =>
        split at hsome
        next heq =>
          obtain rfl := Option.some.inj hsome
          refine ⟨[], entry.1, rest, rfl, heq, ?_⟩
          intro value
          rw [replace_cons, if_neg hbelow, if_pos heq, List.nil_append]
        next hne => simp at hsome

section Order

variable (hcmp : CmpOrder cmp)
include hcmp

theorem sorted_put {key : κ} {value : ν} {entries : List (κ × ν)}
    (hsorted : Sorted cmp entries) : Sorted cmp (put cmp key value entries) := by
  have htotal : Std.Total (Le (ν := ν) cmp) := ⟨fun left right => hcmp.total left.1 right.1⟩
  have htrans : IsTrans (κ × ν) (Le cmp) := ⟨fun a b c => hcmp.trans a.1 b.1 c.1⟩
  exact hsorted.orderedInsert (key, value) entries

/-- Entries in strictly ascending order are found under their keys. -/
theorem get_of_mem {key : κ} {value : ν} {entries : List (κ × ν)}
    (hstrict : entries.Pairwise fun left right => cmp left.1 right.1 < 0)
    (hmem : (key, value) ∈ entries) : get cmp key entries = some value := by
  induction entries with
  | nil => cases hmem
  | cons entry rest ih =>
      obtain ⟨hfirst, hrest⟩ := List.pairwise_cons.mp hstrict
      rw [get_cons]
      rcases List.mem_cons.mp hmem with rfl | hmem
      · simp [hcmp.self]
      · rw [if_pos ((hcmp.swap key entry.1).mpr (hfirst _ hmem))]
        exact ih hrest hmem

/-- Putting entries in strictly ascending order keeps their order. -/
theorem foldl_put_eq_append {front entries : List (κ × ν)}
    (hstrict : (front ++ entries).Pairwise fun left right => cmp left.1 right.1 < 0) :
    entries.foldl (fun table entry => put cmp entry.1 entry.2 table) front = front ++ entries := by
  induction entries generalizing front with
  | nil => simp
  | cons entry rest ih =>
      have hbelow : ∀ other ∈ front, below cmp entry.1 other = true := by
        intro other hother
        have hlt := (List.pairwise_append.mp hstrict).2.2 other hother entry List.mem_cons_self
        have hswap := hcmp.swap entry.1 other.1
        simp only [below, decide_eq_true_eq]
        omega
      have hput : put cmp entry.1 entry.2 front = front ++ [entry] := by
        rw [put_eq, lowerBound, List.takeWhile_eq_self_iff.mpr hbelow,
          List.dropWhile_eq_nil_iff.mpr hbelow]
      have hstrict' : (front ++ [entry] ++ rest).Pairwise
          fun left right => cmp left.1 right.1 < 0 := by simpa using hstrict
      rw [List.foldl_cons, hput, ih hstrict']
      simp

theorem sorted_replace {key : κ} {value : ν} {entries : List (κ × ν)}
    (hsorted : Sorted cmp entries) : Sorted cmp (replace cmp key value entries) := by
  cases hget : get cmp key entries with
  | none =>
      rw [replace_of_get_none hget]
      exact sorted_put hcmp hsorted
  | some old =>
      have hkeys : (replace cmp key value entries).map Prod.fst = entries.map Prod.fst :=
        replace_keys_of_get_some hget
      have hpairs : (entries.map Prod.fst).Pairwise (fun a b => cmp a b ≤ 0) :=
        List.pairwise_map.mpr hsorted
      rw [← hkeys] at hpairs
      exact List.Pairwise.of_map Prod.fst (fun _ _ hle => hle) hpairs

/-- In a sorted list no entry from the lower bound on is below the key. -/
theorem not_below_of_mem_lowerBound {key : κ} {entries : List (κ × ν)} {entry : κ × ν}
    (hsorted : Sorted cmp entries) (hmem : entry ∈ lowerBound cmp key entries) :
    below cmp key entry = false := by
  cases hbound : lowerBound cmp key entries with
  | nil => simp [hbound] at hmem
  | cons first rest =>
      have hfirst := head_lowerBound_not_below hbound
      rw [hbound] at hmem
      rcases List.mem_cons.mp hmem with rfl | hrest
      · exact hfirst
      · have hsuffix : Sorted cmp (first :: rest) :=
          hbound ▸ hsorted.sublist (List.dropWhile_sublist _)
        have hle := List.rel_of_pairwise_cons hsuffix hrest
        have htrans := hcmp.trans key first.1 entry.1
        simp only [below, decide_eq_false_iff_not, not_lt] at hfirst ⊢
        exact htrans hfirst hle

/-- After `put` the newest value of the key is found, and every other key is found as before. -/
theorem get_put (key other : κ) (value : ν) (entries : List (κ × ν)) :
    get cmp key (put cmp other value entries) =
      if cmp key other = 0 then some value else get cmp key entries := by
  induction entries with
  | nil =>
      have hnil : put cmp other value ([] : List (κ × ν)) = [(other, value)] := rfl
      have hself : get cmp key ([] : List (κ × ν)) = none := rfl
      rw [hnil, get_cons, hself]
      by_cases hkey : 0 < cmp key other
      · have hne : cmp key other ≠ 0 := by omega
        simp [hkey, hne]
      · simp [hkey]
  | cons entry rest ih =>
      have hkk := hcmp.swap key other
      have hkk' := hcmp.swap other key
      have hthrough := hcmp.trans other key entry.1
      have hacross := hcmp.trans key other entry.1
      have hback := hcmp.trans other entry.1 key
      have hke := hcmp.swap entry.1 key
      rw [put_cons]
      by_cases hbelow : 0 < cmp other entry.1
      · rw [if_pos hbelow, get_cons, ih, get_cons]
        by_cases hkey : 0 < cmp key entry.1
        · simp [hkey]
        · -- `key` is not above `entry` and `other` is, so the two keys differ.
          have hne : cmp key other ≠ 0 := by omega
          simp [hkey, hne]
      · rw [if_neg hbelow, get_cons key (other, value), get_cons]
        by_cases hkey : 0 < cmp key other
        · have hne : cmp key other ≠ 0 := by omega
          simp [hkey, hne]
        · by_cases heq : cmp key other = 0
          · simp [heq]
          · have hnot : ¬ 0 < cmp key entry.1 := by omega
            have hne : cmp key entry.1 ≠ 0 := by omega
            simp [hkey, heq, hnot, hne]

theorem get_replace (key other : κ) (value : ν) (entries : List (κ × ν)) :
    get cmp key (replace cmp other value entries) =
      if cmp key other = 0 then some value else get cmp key entries := by
  induction entries with
  | nil => exact get_put hcmp key other value []
  | cons entry rest ih =>
      have hkk := hcmp.swap key other
      have hkk' := hcmp.swap other key
      have hthrough := hcmp.trans other key entry.1
      have hacross := hcmp.trans key other entry.1
      have hback := hcmp.trans entry.1 other key
      have hleft := hcmp.trans key entry.1 other
      have hright := hcmp.trans other entry.1 key
      have hke := hcmp.swap entry.1 key
      have hke' := hcmp.swap key entry.1
      have hoe := hcmp.swap entry.1 other
      have hoe' := hcmp.swap other entry.1
      rw [replace_cons]
      by_cases hbelow : 0 < cmp other entry.1
      · rw [if_pos hbelow, get_cons, ih, get_cons]
        by_cases hkey : 0 < cmp key entry.1
        · simp [hkey]
        · have hne : cmp key other ≠ 0 := by omega
          simp [hkey, hne]
      · by_cases hsame : cmp other entry.1 = 0
        · rw [if_neg hbelow, if_pos hsame, get_cons key (entry.1, value), get_cons]
          by_cases hkey : 0 < cmp key entry.1
          · have hne : cmp key other ≠ 0 := by omega
            simp [hkey, hne]
          · by_cases heq : cmp key entry.1 = 0
            · have heq' : cmp key other = 0 := by omega
              simp [heq, heq']
            · have hne : cmp key other ≠ 0 := by omega
              simp [hkey, heq, hne]
        · have hput := get_put hcmp key other value (entry :: rest)
          rw [put_cons, if_neg hbelow] at hput
          rw [if_neg hbelow, if_neg hsame]
          exact hput

end Order

/-! ## Runs of writes -/

/-- The values stored under one key, newest first, after each write: a `put`
adds a value in front, a `replace` overwrites the front one. -/
def stackAfter (cmp : κ → κ → Int) (key : κ) (stack : List ν) (op : AssocOp κ ν) : List ν :=
  if cmp key op.key = 0 then
    match op, stack with
    | .put _ value, stack => value :: stack
    | .replace _ value, [] => [value]
    | .replace _ value, _ :: older => value :: older
  else stack

/-- Whether a write adds an entry rather than overwriting one. -/
def inserts (cmp : κ → κ → Int) (entries : List (κ × ν)) : AssocOp κ ν → Bool
  | .put _ _ => true
  | .replace key _ => (get cmp key entries).isNone

/-- The keys of the writes that added an entry, in order. -/
def insertedKeys (cmp : κ → κ → Int) (entries : List (κ × ν)) : List (AssocOp κ ν) → List κ
  | [] => []
  | op :: rest =>
      (if inserts cmp entries op then [op.key] else []) ++
        insertedKeys cmp (apply cmp entries op) rest

theorem run_append_singleton (ops : List (AssocOp κ ν)) (op : AssocOp κ ν) :
    run cmp (ops ++ [op]) = apply cmp (run cmp ops) op := by
  simp [run]

/-- An operation adds its own key or leaves the keys as they are: `replace` on a key that is
there already changes a value only. -/
theorem apply_keys_perm (entries : List (κ × ν)) (op : AssocOp κ ν) :
    ((apply cmp entries op).map Prod.fst).Perm
      ((if inserts cmp entries op then [op.key] else []) ++ entries.map Prod.fst) := by
  have hput : ∀ key value, ((put cmp key value entries).map Prod.fst).Perm
      (key :: entries.map Prod.fst) := fun key value =>
    (List.perm_orderedInsert (Le cmp) (key, value) entries).map Prod.fst
  cases op with
  | put key value => simpa [inserts, apply, AssocOp.key] using hput key value
  | replace key value =>
      cases hget : get cmp key entries with
      | none =>
          simpa [inserts, apply, AssocOp.key, hget, replace_of_get_none hget] using hput key value
      | some old => simp [inserts, apply, hget, replace_keys_of_get_some hget]

/-- Every inserting write contributes one entry and nothing else does. -/
theorem foldl_keys_perm (ops : List (AssocOp κ ν)) (entries : List (κ × ν)) :
    ((ops.foldl (apply cmp) entries).map Prod.fst).Perm
      (insertedKeys cmp entries ops ++ entries.map Prod.fst) := by
  induction ops generalizing entries with
  | nil => simp [insertedKeys]
  | cons op rest ih =>
      rw [List.foldl_cons]
      refine (ih (apply cmp entries op)).trans ?_
      refine ((apply_keys_perm entries op).append_left _).trans ?_
      rw [insertedKeys, ← List.append_assoc]
      exact List.perm_append_comm.append_right _

/-- Every run of operations leaves the list in order, by induction on the run with the lemmas
of `put` and `replace` as its steps. -/
theorem sorted_run (hcmp : CmpOrder cmp) (ops : List (AssocOp κ ν)) :
    Sorted cmp (run cmp ops) := by
  induction ops using List.reverseRecOn with
  | nil => exact List.Pairwise.nil
  | append_singleton ops op ih =>
      rw [run_append_singleton]
      cases op with
      | put key value => exact sorted_put hcmp ih
      | replace key value => exact sorted_replace hcmp ih

/-! ## Tables built by puts -/

/-- The table left by putting pairs one after the other. -/
def ofPairs (cmp : κ → κ → Int) (pairs : List (κ × ν)) : List (κ × ν) :=
  pairs.foldl (fun entries pair => put cmp pair.1 pair.2 entries) []

/-- A list built from pairs is a run of `put` alone. -/
theorem ofPairs_eq_run (pairs : List (κ × ν)) :
    ofPairs cmp pairs = run cmp (pairs.map fun pair => .put pair.1 pair.2) := by
  rw [ofPairs, run, List.foldl_map]
  rfl

/-- Every pair has an entry of its own. -/
theorem ofPairs_perm (pairs : List (κ × ν)) : (ofPairs cmp pairs).Perm pairs := by
  have hfold : ∀ entries : List (κ × ν), (pairs.foldl
      (fun entries pair => put cmp pair.1 pair.2 entries) entries).Perm (pairs ++ entries) := by
    induction pairs with
    | nil => simp
    | cons pair rest ih =>
        intro entries
        rw [List.foldl_cons]
        refine (ih _).trans ?_
        refine ((List.perm_orderedInsert _ pair entries).append_left rest).trans ?_
        exact List.perm_middle
  simpa [ofPairs] using hfold []

theorem ofPairs_map {μ : Type} (f : ν → μ) (pairs : List (κ × ν)) :
    ofPairs cmp (pairs.map (Prod.map id f)) = (ofPairs cmp pairs).map (Prod.map id f) := by
  induction pairs using List.reverseRecOn with
  | nil => rfl
  | append_singleton pairs pair ih =>
      unfold ofPairs at ih ⊢
      rw [List.map_append, List.foldl_append, ih, List.foldl_append]
      exact put_map f pair.1 pair.2 _

/-- The values stored under `key`, in list order. -/
def stackOf (cmp : κ → κ → Int) (key : κ) (entries : List (κ × ν)) : List ν :=
  (entries.filter fun entry => cmp key entry.1 = 0).map Prod.snd

theorem stackOf_append (key : κ) (left right : List (κ × ν)) :
    stackOf cmp key (left ++ right) = stackOf cmp key left ++ stackOf cmp key right := by
  simp [stackOf]

theorem stackOf_cons (key : κ) (entry : κ × ν) (rest : List (κ × ν)) :
    stackOf cmp key (entry :: rest) =
      if cmp key entry.1 = 0 then entry.2 :: stackOf cmp key rest else stackOf cmp key rest := by
  by_cases heq : cmp key entry.1 = 0 <;> simp [stackOf, heq]

/-- The values of a key can be counted on both sides of any lower bound. -/
theorem stackOf_split (key other : κ) (entries : List (κ × ν)) :
    stackOf cmp key entries = stackOf cmp key (entries.takeWhile (below cmp other)) ++
      stackOf cmp key (lowerBound cmp other entries) := by
  rw [← stackOf_append, takeWhile_append_lowerBound]

section Stack

variable (hcmp : CmpOrder cmp)
include hcmp

/-- In front of the lower bound of a key there is no value of it. -/
theorem stackOf_takeWhile {key other : κ} (heq : cmp key other = 0)
    (entries : List (κ × ν)) :
    stackOf cmp key (entries.takeWhile (below cmp other)) = [] := by
  have hnone : (entries.takeWhile (below cmp other)).filter
      (fun entry => cmp key entry.1 = 0) = [] := by
    rw [List.filter_eq_nil_iff]
    intro entry hmem hzero
    have hbelow := List.mem_takeWhile_imp hmem
    simp only [below, decide_eq_true_eq] at hbelow hzero
    have hback := hcmp.eq_zero_comm heq
    have htrans := hcmp.trans other key entry.1
    omega
  simp [stackOf, hnone]

/-- Behind a lower bound whose first entry differs from the key, no entry has it. -/
theorem stackOf_lowerBound_of_get_none {key other : κ} (heq : cmp key other = 0)
    {entries : List (κ × ν)} (hsorted : Sorted cmp entries)
    (hnone : get cmp other entries = none) :
    stackOf cmp key (lowerBound cmp other entries) = [] := by
  unfold get at hnone
  cases hbound : lowerBound cmp other entries with
  | nil => rfl
  | cons first rest =>
      rw [hbound] at hnone
      have hfirst := head_lowerBound_not_below hbound
      have hsuffix : Sorted cmp (first :: rest) :=
        hbound ▸ hsorted.sublist (List.dropWhile_sublist _)
      have hne : cmp other first.1 ≠ 0 := by
        intro hzero
        simp [hzero] at hnone
      have hall : (first :: rest).filter (fun entry => cmp key entry.1 = 0) = [] := by
        rw [List.filter_eq_nil_iff]
        intro entry hmem hzero
        have hle : cmp first.1 entry.1 ≤ 0 := by
          rcases List.mem_cons.mp hmem with rfl | hrest
          · exact (hcmp.self _).le
          · exact List.rel_of_pairwise_cons hsuffix hrest
        simp only [below, decide_eq_false_iff_not, decide_eq_true_eq] at hfirst hzero
        have hentry := hcmp.eq_zero_comm hzero
        have hto := hcmp.trans first.1 entry.1 key
        have hto' := hcmp.trans first.1 key other
        have hswap := hcmp.swap first.1 other
        omega
      simp [stackOf, hall]

/-- `put` pushes onto the stack of its own key and touches no other stack. -/
theorem stackOf_put (key other : κ) (value : ν) (entries : List (κ × ν)) :
    stackOf cmp key (put cmp other value entries) =
      if cmp key other = 0 then value :: stackOf cmp key entries
      else stackOf cmp key entries := by
  rw [put_eq, stackOf_append, stackOf_cons, stackOf_split key other entries]
  by_cases heq : cmp key other = 0
  · simp [heq, stackOf_takeWhile hcmp heq]
  · simp [heq]

/-- One write acts on the values of each key as a push, an overwrite of the
newest value, or not at all. -/
theorem stackOf_apply (key : κ) {entries : List (κ × ν)} (hsorted : Sorted cmp entries)
    (op : AssocOp κ ν) :
    stackOf cmp key (apply cmp entries op) =
      stackAfter cmp key (stackOf cmp key entries) op := by
  cases op with
  | put other value =>
      rw [apply, stackOf_put hcmp]
      rfl
  | replace other value =>
      cases hget : get cmp other entries with
      | none =>
          -- an absent key is inserted, and its stack was empty
          rw [apply, replace_of_get_none hget, stackOf_put hcmp]
          by_cases heq : cmp key other = 0
          · have hempty : stackOf cmp key entries = [] := by
              rw [stackOf_split key other entries, stackOf_takeWhile hcmp heq,
                stackOf_lowerBound_of_get_none hcmp heq hsorted hget]
              rfl
            simp [heq, hempty, stackAfter, AssocOp.key]
          · simp [heq, stackAfter, AssocOp.key]
      | some old =>
          -- the entry that is overwritten is the first one behind the lower bound
          unfold get at hget
          cases hbound : lowerBound cmp other entries with
          | nil => simp [hbound] at hget
          | cons first rest =>
              rw [hbound] at hget
              have hfirst : cmp other first.1 = 0 := by
                by_contra hne
                simp [hne] at hget
              have hreplace : replace cmp other value entries =
                  entries.takeWhile (below cmp other) ++ (first.1, value) :: rest := by
                simp [replace, hbound, hfirst]
              have hsame : cmp key first.1 = 0 ↔ cmp key other = 0 :=
                ⟨fun hzero => hcmp.eq_zero_trans hzero (hcmp.eq_zero_comm hfirst),
                  fun hzero => hcmp.eq_zero_trans hzero hfirst⟩
              rw [apply, hreplace, stackOf_append, stackOf_cons, stackOf_split key other entries,
                hbound, stackOf_cons]
              by_cases heq : cmp key other = 0
              · simp [heq, hsame, stackOf_takeWhile hcmp heq, stackAfter, AssocOp.key]
              · simp [heq, hsame, stackAfter, AssocOp.key]

/-- Over a run, the values of a key are a stack of their own: what the operations on this key
leave, in the order of the run. -/
theorem stackOf_run (key : κ) (ops : List (AssocOp κ ν)) :
    stackOf cmp key (run cmp ops) = ops.foldl (stackAfter cmp key) [] := by
  induction ops using List.reverseRecOn with
  | nil => rfl
  | append_singleton ops op ih =>
      rw [run_append_singleton, stackOf_apply hcmp key (sorted_run hcmp ops), ih,
        List.foldl_append]
      rfl

end Stack

/-- A lookup answers with the latest write to its key. -/
theorem get_run (hcmp : CmpOrder cmp) (key : κ) (ops : List (AssocOp κ ν)) :
    get cmp key (run cmp ops) = latest cmp key ops := by
  induction ops using List.reverseRecOn with
  | nil => rfl
  | append_singleton ops op ih =>
      have hlatest : latest cmp key (ops ++ [op]) =
          if cmp key op.key = 0 then some op.value else latest cmp key ops := by
        by_cases heq : cmp key op.key = 0
        · simp [latest, heq]
        · simp [latest, heq]
      rw [run_append_singleton, hlatest, ← ih]
      cases op with
      | put other value => exact get_put hcmp key other value _
      | replace other value => exact get_replace hcmp key other value _

/-- The last pair of a key answers a lookup. -/
theorem get_ofPairs (hcmp : CmpOrder cmp) (key : κ) (pairs : List (κ × ν)) :
    get cmp key (ofPairs cmp pairs) =
      (pairs.reverse.find? fun pair => cmp key pair.1 = 0).map Prod.snd := by
  rw [ofPairs_eq_run, get_run hcmp, latest, ← List.map_reverse, List.find?_map, Option.map_map]
  rfl

/-- Built from pairs, the values of a key come out in reverse, the last pair in front. -/
theorem stackOf_ofPairs (hcmp : CmpOrder cmp) (key : κ) (pairs : List (κ × ν)) :
    stackOf cmp key (ofPairs cmp pairs) = (stackOf cmp key pairs).reverse := by
  induction pairs using List.reverseRecOn with
  | nil => rfl
  | append_singleton pairs pair ih =>
      have hconcat : ofPairs cmp (pairs ++ [pair]) =
          put cmp pair.1 pair.2 (ofPairs cmp pairs) := by
        rw [ofPairs, List.foldl_append]
        rfl
      rw [hconcat, stackOf_put hcmp, ih, stackOf_append, stackOf_cons]
      by_cases hkey : cmp key pair.1 = 0
      · simp [hkey, stackOf]
      · simp [hkey, stackOf]

/-- Copying a table entry by entry puts the oldest pair of a key in front. -/
theorem get_ofPairs_ofPairs (hcmp : CmpOrder cmp) (key : κ) (pairs : List (κ × ν)) :
    get cmp key (ofPairs cmp (ofPairs cmp pairs)) =
      (pairs.find? fun pair => cmp key pair.1 = 0).map Prod.snd := by
  have hfirst : ∀ entries : List (κ × ν), (entries.find? fun pair => cmp key pair.1 = 0).map
      Prod.snd = (stackOf cmp key entries).head? := by
    intro entries
    rw [stackOf, List.head?_map, List.head?_filter]
  have hlast : stackOf cmp key (ofPairs cmp pairs).reverse =
      (stackOf cmp key (ofPairs cmp pairs)).reverse := by
    rw [stackOf, List.filter_reverse, List.map_reverse, stackOf]
  rw [get_ofPairs hcmp, hfirst, hlast, stackOf_ofPairs hcmp, List.reverse_reverse, hfirst]

end Assoc

end Foundation
