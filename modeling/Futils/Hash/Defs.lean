import Mathlib.Data.Finmap
import Futils.Errno
import Futils.Lib.Chain
import Futils.LinkedList.Defs

/-!
# The hash table (`src/hash.c`)

The entries lie in a heap, and the list nodes that they begin with in a memory of their own, at the
same addresses; a pointer is an address, and `0` is `NULL`.  A loop over a chain is given an amount
of fuel, and is `none` when that runs out or when it follows a pointer to a block that is not
allocated, as is a remainder by zero.  The tables that the functions are called on are never `NULL`.
-/

namespace Futils.Hash

open Futils.Lib Futils.LinkedList

/-- `struct hash_entry`, less its list node; `data` and `const_data` are one union. -/
structure HashEntry where
  isConst : Bool
  data : ℕ
  key : UInt32
  next : ℕ
  deriving DecidableEq

/-- `struct hash`; `entries` is the address of the list head in it, and `hfree` is set if there is a
callback. -/
structure HashTab where
  buckets : Mem ℕ
  size : UInt32
  entries : ℕ
  hfree : Bool

/-- The table and the memory that it lives in. -/
structure State where
  tab : HashTab
  heap : Heap HashEntry
  nodes : Nodes

/-! ### The hash -/

def futilsHashPrimeTab : List UInt32 :=
  [1, 2, 3, 7, 13, 31, 61, 127, 251, 509, 1021,
    2039, 4093, 8191, 16381, 32749, 65521, 131071,
    262139, 524287, 1048573, 2097143, 4194301, 8388593,
    16777213, 33554393, 67108859, 134217689, 268435399,
    536870909, 1073741789, 2147483647]

def mult33 (x : UInt32) : UInt32 := (x <<< 5) + x

def DJB2_HASH_START : UInt32 := 5381

def hash32 (key : UInt32) : UInt32 :=
  let hash := mult33 DJB2_HASH_START + (key &&& 0xff)
  let key := key >>> 8
  let hash := mult33 hash + (key &&& 0xff)
  let key := key >>> 8
  let hash := mult33 hash + (key &&& 0xff)
  let key := key >>> 8
  mult33 hash + (key &&& 0xff)

/-- The loop of `futils_hash_init`, over what is left of the table of primes. -/
def primeLoop (size : ℕ) : List UInt32 → UInt32
  | [] => 0
  | [p] => p
  | p :: ps => if p.toNat ≤ size then primeLoop size ps else p

/-- `futils_hash_init`: `calloc` says whether the buckets are allocated.  The callback is one that
leaves the table and its entries alone. -/
def futilsHashInit (heap : Heap HashEntry) (nodes : Nodes) (hash size : ℕ) (hfree calloc : Bool) :
    ℤ × State :=
  let tabSize := primeLoop size futilsHashPrimeTab
  if !calloc then (-ENOMEM, ⟨⟨fun _ => 0, tabSize, hash, false⟩, heap, nodes⟩)
  else (0, ⟨⟨fun _ => 0, tabSize, hash, hfree⟩, heap, listInit nodes hash⟩)

/-! ### The loops over a chain -/

/-- The loop of `futils_hash_insert_entry`: `-EEXIST` if the key is there. -/
def insertLoop (heap : Heap HashEntry) (key : UInt32) : ℕ → ℕ → Option ℤ
  | 0, _ => none
  | fuel + 1, entry =>
    if entry = 0 then some 0
    else
      match heap entry with
      | none => none
      | some e => if e.key = key then some (-EEXIST) else insertLoop heap key fuel e.next

/-- The loop of `futils_hash_lookup_entry` and of `futils_hash_remove`: the entry with the key, or
`NULL`, and the entry before it, of which only the latter keeps track. -/
def findLoop (heap : Heap HashEntry) (key : UInt32) : ℕ → ℕ → ℕ → Option (ℕ × ℕ)
  | 0, _, _ => none
  | fuel + 1, prev, entry =>
    if entry = 0 then some (prev, entry)
    else
      match heap entry with
      | none => none
      | some e => if e.key = key then some (prev, entry) else findLoop heap key fuel entry e.next

/-- The bucket of a key. -/
def HashTab.index (tab : HashTab) (key : UInt32) : ℕ := (hash32 key % tab.size).toNat

/-! ### Insertion -/

/-- `entry->next = next` -/
def setNext (heap : Heap HashEntry) (entry next : ℕ) : Heap HashEntry :=
  Function.update heap entry ((heap entry).map fun e => { e with next := next })

def futilsHashInsertEntry (fuel : ℕ) (s : State) (key : UInt32) (newEntry : ℕ) :
    Option (ℤ × State) :=
  if s.tab.size = 0 then none
  else
    let hashVal := s.tab.index key
    match insertLoop s.heap key fuel (s.tab.buckets hashVal) with
    | none => none
    | some ret =>
      if ret < 0 then some (ret, s)
      else
        some (0, { s with
          heap := setNext s.heap newEntry (s.tab.buckets hashVal)
          tab := { s.tab with buckets := Function.update s.tab.buckets hashVal newEntry }
          nodes := listAddBefore s.nodes s.tab.entries newEntry })

/-- Both functions that insert: `calloc` is the block that it returns, if it does, and `isConst`
what they differ in. -/
def insertAs (isConst : Bool) (fuel : ℕ) (s : State) (calloc : Option ℕ) (key : UInt32) (data : ℕ) :
    Option (ℤ × State) :=
  match calloc with
  | none => some (-ENOMEM, s)
  | some entry =>
    let s := { s with
      heap := Function.update s.heap entry (some ⟨isConst, data, key, 0⟩)
      nodes := Function.update s.nodes entry ⟨0, 0⟩ }
    match futilsHashInsertEntry fuel s key entry with
    | none => none
    | some (ret, s) =>
      if ret < 0 then some (ret, { s with heap := Function.update s.heap entry none })
      else some (ret, s)

def futilsHashInsert : ℕ → State → Option ℕ → UInt32 → ℕ → Option (ℤ × State) := insertAs false

def futilsHashInsertConst : ℕ → State → Option ℕ → UInt32 → ℕ → Option (ℤ × State) := insertAs true

/-! ### Lookup -/

def futilsHashLookupEntry (fuel : ℕ) (s : State) (key : UInt32) : Option (ℤ × Option HashEntry) :=
  if s.tab.size = 0 then none
  else
    match findLoop s.heap key fuel 0 (s.tab.buckets (s.tab.index key)) with
    | none => none
    | some (_, entry) => if entry = 0 then some (-ENOENT, none) else some (0, s.heap entry)

/-- The return value and what `*data` then is, if `data` is not `NULL`. -/
def futilsHashLookup (fuel : ℕ) (s : State) (key : UInt32) (data : Option ℕ) :
    Option (ℤ × Option ℕ) :=
  match futilsHashLookupEntry fuel s key with
  | none => none
  | some (_, some e) => if e.isConst then some (-EPERM, data) else some (0, data.map fun _ => e.data)
  | some (ret, none) => some (ret, data)

def futilsHashLookupConst (fuel : ℕ) (s : State) (key : UInt32) (data : Option ℕ) :
    Option (ℤ × Option ℕ) :=
  match futilsHashLookupEntry fuel s key with
  | none => none
  | some (_, some e) => some (0, data.map fun _ => e.data)
  | some (ret, none) => some (ret, data)

/-! ### Removal -/

/-- The calls of `hfree` for an entry that is removed, with their argument. -/
def HashTab.frees (tab : HashTab) (e : HashEntry) : List ℕ := if tab.hfree then [e.data] else []

/-- The return value, the state and the calls of `hfree`. -/
def futilsHashRemove (fuel : ℕ) (s : State) (key : UInt32) : Option (ℤ × State × List ℕ) :=
  if s.tab.size = 0 then none
  else
    let hash := s.tab.index key
    match findLoop s.heap key fuel 0 (s.tab.buckets hash) with
    | none => none
    | some (prev, entry) =>
      if entry = 0 then some (-ENOENT, s, [])
      else
        match s.heap entry with
        | none => none
        | some e =>
          let s :=
            if prev = 0 then
              { s with tab := { s.tab with buckets := Function.update s.tab.buckets hash e.next } }
            else { s with heap := setNext s.heap prev e.next }
          some (0, { s with
            nodes := listDel s.nodes entry
            heap := Function.update s.heap entry none }, s.tab.frees e)

/-- The inner loop of `futils_hash_remove_all`. -/
def removeChainLoop : ℕ → State → ℕ → Option (State × List ℕ)
  | 0, _, _ => none
  | fuel + 1, s, entry =>
    if entry = 0 then some (s, [])
    else
      match s.heap entry with
      | none => none
      | some e =>
        let freed := s.tab.frees e
        let s := { s with
          nodes := listDel s.nodes entry
          heap := Function.update s.heap entry none }
        match removeChainLoop fuel s e.next with
        | none => none
        | some (s, rest) => some (s, freed ++ rest)

/-- The outer loop of `futils_hash_remove_all`, from bucket `i` on, with `left` buckets to go. -/
def removeAllLoop (fuel : ℕ) : ℕ → State → ℕ → Option (State × List ℕ)
  | 0, s, _ => some (s, [])
  | left + 1, s, i =>
    match removeChainLoop fuel s (s.tab.buckets i) with
    | none => none
    | some (s, freed) =>
      let s := { s with tab := { s.tab with buckets := Function.update s.tab.buckets i 0 } }
      match removeAllLoop fuel left s (i + 1) with
      | none => none
      | some (s, rest) => some (s, freed ++ rest)

def futilsHashRemoveAll (fuel : ℕ) (s : State) : Option (ℤ × State × List ℕ) :=
  match removeAllLoop fuel s.tab.size.toNat s 0 with
  | none => none
  | some (s, freed) => some (0, s, freed)

/-- The table is all zeros afterwards. -/
def futilsHashDestroy (fuel : ℕ) (s : State) : Option (ℤ × State × List ℕ) :=
  match futilsHashRemoveAll fuel s with
  | none => none
  | some (_, s, freed) =>
    some (0, { s with
      tab := ⟨fun _ => 0, 0, s.tab.entries, false⟩
      nodes := Function.update s.nodes s.tab.entries ⟨0, 0⟩ }, freed)

end Futils.Hash
