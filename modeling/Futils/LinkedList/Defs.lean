import Futils.Lib.Mem
import Mathlib.Logic.Function.Basic

/-!
# Linked lists (`include/futils/list.h`)

The nodes of all lists lie in one memory, and a pointer to a node is its address.  A loop over a list
gives nothing when its fuel is used up.
-/

namespace Futils.LinkedList

open Futils.Lib

/-- `struct list_node` -/
structure ListNode where
  next : ℕ
  prev : ℕ
  deriving DecidableEq

/-- The nodes at all addresses. -/
abbrev Nodes := Mem ListNode

def FUTILS_LIST_POISON1 : ℕ := 0xDEADBEEF

def FUTILS_LIST_POISON2 : ℕ := 0xDEADDEAD

/-- `node->next = next` -/
def Nodes.setNext (m : Nodes) (node next : ℕ) : Nodes :=
  Function.update m node { m node with next := next }

/-- `node->prev = prev` -/
def Nodes.setPrev (m : Nodes) (node prev : ℕ) : Nodes :=
  Function.update m node { m node with prev := prev }

def listNodeUnref (m : Nodes) (node : ℕ) : Nodes :=
  (m.setNext node FUTILS_LIST_POISON1).setPrev node FUTILS_LIST_POISON2

def listInit (m : Nodes) (list : ℕ) : Nodes := (m.setNext list list).setPrev list list

def listAdd (m : Nodes) (novel prev next : ℕ) : Nodes :=
  (((m.setNext novel next).setPrev novel prev).setPrev next novel).setNext prev novel

def listAddBefore (m : Nodes) (node novel : ℕ) : Nodes := listAdd m novel (m node).prev node

def listDetach (m : Nodes) (prev next : ℕ) : Nodes := (m.setPrev next prev).setNext prev next

def listDel (m : Nodes) (node : ℕ) : Nodes :=
  listNodeUnref (listDetach m (m node).prev (m node).next) node

def listFirst (m : Nodes) (list : ℕ) : ℕ := (m list).next

def listAddAfter (m : Nodes) (node novel : ℕ) : Nodes := listAdd m novel node (m node).next

def listDelInit (m : Nodes) (node : ℕ) : Nodes :=
  listInit (listDetach m (m node).prev (m node).next) node

def listReplace (m : Nodes) (old novel : ℕ) : Nodes :=
  let m := m.setNext novel (m old).next
  let m := m.setPrev (m novel).next novel
  let m := m.setPrev novel (m old).prev
  m.setNext (m novel).prev novel

def listReplaceInit (m : Nodes) (old novel : ℕ) : Nodes := listInit (listReplace m old novel) old

def listMoveAfter (m : Nodes) («to» «from» : ℕ) : Nodes :=
  listAddAfter (listDetach m (m «from»).prev (m «from»).next) «to» «from»

def listMoveBefore (m : Nodes) («to» «from» : ℕ) : Nodes :=
  listAddBefore (listDetach m (m «from»).prev (m «from»).next) «to» «from»

def listPush (m : Nodes) (list elem : ℕ) : Nodes := listAddBefore m list elem

/-- `list_pop`, with the node that is taken out, if any. -/
def listPop (m : Nodes) (list : ℕ) : Nodes × Option ℕ :=
  let ptr := listFirst m list
  if ptr = list then (m, none) else (listDel m ptr, some ptr)

/-! ### Loops -/

/-- The rest of a loop over `list`, from `pos` on. -/
def walkFrom (step : ℕ → ℕ) (list : ℕ) : ℕ → ℕ → Option (List ℕ)
  | 0, _ => none
  | fuel + 1, pos =>
    if pos ≠ list then (walkFrom step list fuel (step pos)).map (pos :: ·) else some []

/-- The nodes that `list_walk_forward` visits. -/
def listWalkForward (m : Nodes) (list fuel : ℕ) : Option (List ℕ) :=
  walkFrom (fun pos => (m pos).next) list fuel (m list).next

def listWalkBackward (m : Nodes) (list fuel : ℕ) : Option (List ℕ) :=
  walkFrom (fun pos => (m pos).prev) list fuel (m list).prev

/-- The loop of `list_length`, a `list_walk_forward_safe`. -/
def listLengthLoop (m : Nodes) (list : ℕ) : ℕ → ℕ → ℕ → ℕ → Option ℕ
  | 0, _, _, _ => none
  | fuel + 1, length, current, tmp =>
    if current ≠ list then listLengthLoop m list fuel (length + 1) tmp (m tmp).next else some length

def listLength (m : Nodes) (list fuel : ℕ) : Option ℕ :=
  let current := (m list).next
  listLengthLoop m list fuel 0 current (m current).next

end Futils.LinkedList
