import RtSmart.Lib.Transition

/-!
The AVL trees of lwp_avl.c: nodes in memory, linked by pointers, and the operations with their stacks of
places that point to nodes.
-/

namespace RtSmart

structure LwpAvlStruct where
  avlLeft : Option ℕ
  avlRight : Option ℕ
  avlHeight : ℕ
  avlKey : ℕ
  deriving DecidableEq, Repr

/-- The places a `struct lwp_avl_struct **` can point to: the root of the tree and the fields of the nodes. -/
inductive Nodeplace
  | ptree
  | left (n : ℕ)
  | right (n : ℕ)
  deriving DecidableEq, Repr

structure AvlHeap where
  tree : Option ℕ
  node : ℕ → LwpAvlStruct

/-- `search_state`: not looked at yet, on the left of equal keys, on the right of equal keys, on the only side. -/
inductive SearchState
  | fresh
  | equalLeft
  | equalRight
  | oneSide
  deriving DecidableEq, Repr

namespace AvlHeap

def avlMaxheight : ℕ := 32

-- no loop of these functions runs that often on the nodes of one memory
def loopBound : ℕ := 2 ^ 64

def deref (s : AvlHeap) : Nodeplace → Option ℕ
  | .ptree => s.tree
  | .left n => (s.node n).avlLeft
  | .right n => (s.node n).avlRight

def setNode (s : AvlHeap) (n : ℕ) (x : LwpAvlStruct) : AvlHeap := { s with node := Function.update s.node n x }

def assign (s : AvlHeap) (place : Nodeplace) (v : Option ℕ) : AvlHeap :=
  match place with
  | .ptree => { s with tree := v }
  | .left n => s.setNode n { s.node n with avlLeft := v }
  | .right n => s.setNode n { s.node n with avlRight := v }

def setHeight (s : AvlHeap) (n h : ℕ) : AvlHeap := s.setNode n { s.node n with avlHeight := h }

def heightof (s : AvlHeap) : Option ℕ → ℕ
  | none => 0
  | some n => (s.node n).avlHeight

/-- One turn of the loop of `lwp_avl_rebalance`; `true` is its `break`. No result is an access through a null
pointer. -/
def rebalanceNode (s : AvlHeap) (nodeplace : Nodeplace) : Option (AvlHeap × Bool) :=
  match s.deref nodeplace with
  | none => none
  | some node =>
    let nodeleft := (s.node node).avlLeft
    let noderight := (s.node node).avlRight
    let heightleft := s.heightof nodeleft
    let heightright := s.heightof noderight
    if heightright + 1 < heightleft then
      match nodeleft with
      | none => none
      | some nodeleft =>
        let nodeleftleft := (s.node nodeleft).avlLeft
        let nodeleftright := (s.node nodeleft).avlRight
        let heightleftright := s.heightof nodeleftright
        if s.heightof nodeleftleft ≥ heightleftright then
          let s := s.assign (.left node) nodeleftright
          let s := s.assign (.right nodeleft) (some node)
          let s := s.setHeight node (1 + heightleftright)
          let s := s.setHeight nodeleft (1 + (1 + heightleftright))
          some (s.assign nodeplace (some nodeleft), false)
        else
          match nodeleftright with
          | none => none
          | some nodeleftright =>
            let s := s.assign (.right nodeleft) (s.node nodeleftright).avlLeft
            let s := s.assign (.left node) (s.node nodeleftright).avlRight
            let s := s.assign (.left nodeleftright) (some nodeleft)
            let s := s.assign (.right nodeleftright) (some node)
            let s := s.setHeight node heightleftright
            let s := s.setHeight nodeleft heightleftright
            let s := s.setHeight nodeleftright heightleft
            some (s.assign nodeplace (some nodeleftright), false)
    else if heightleft + 1 < heightright then
      match noderight with
      | none => none
      | some noderight =>
        let noderightright := (s.node noderight).avlRight
        let noderightleft := (s.node noderight).avlLeft
        let heightrightleft := s.heightof noderightleft
        if s.heightof noderightright ≥ heightrightleft then
          let s := s.assign (.right node) noderightleft
          let s := s.assign (.left noderight) (some node)
          let s := s.setHeight node (1 + heightrightleft)
          let s := s.setHeight noderight (1 + (1 + heightrightleft))
          some (s.assign nodeplace (some noderight), false)
        else
          match noderightleft with
          | none => none
          | some noderightleft =>
            let s := s.assign (.left noderight) (s.node noderightleft).avlRight
            let s := s.assign (.right node) (s.node noderightleft).avlLeft
            let s := s.assign (.right noderightleft) (some noderight)
            let s := s.assign (.left noderightleft) (some node)
            let s := s.setHeight node heightrightleft
            let s := s.setHeight noderight heightrightleft
            let s := s.setHeight noderightleft heightright
            some (s.assign nodeplace (some noderightleft), false)
    else
      let height := (if heightleft < heightright then heightright else heightleft) + 1
      if height = (s.node node).avlHeight then some (s, true) else some (s.setHeight node height, false)

def lwpAvlRebalance (s : AvlHeap) : List Nodeplace → Option AvlHeap
  | [] => some s
  | nodeplace :: rest =>
    match s.rebalanceNode nodeplace with
    | none => none
    | some (s, true) => some s
    | some (s, false) => lwpAvlRebalance s rest

/-- The loop of `lwp_avl_find_nodeplace` with its two stacks as one, the top first. The inner result is the stack
of the places down to the target, the root first, when it is found. -/
def searchLoop (s : AvlHeap) (target : ℕ) : ℕ → List (Nodeplace × SearchState) → Option (Option (List Nodeplace))
  | 0, _ => none
  | _ + 1, [] => some none
  | fuel + 1, (place, state) :: rest =>
    let down (state : SearchState) (next : Nodeplace) :=
      if rest.length + 1 ≥ avlMaxheight ∧ s.deref next ≠ none then some none
      else searchLoop s target fuel ((next, .fresh) :: (place, state) :: rest)
    match s.deref place with
    | none => searchLoop s target fuel rest
    | some node =>
      match state with
      | .fresh =>
        if node = target then some (some (place :: rest.map Prod.fst).reverse)
        else if (s.node target).avlKey < (s.node node).avlKey then down .oneSide (.left node)
        else if (s.node target).avlKey > (s.node node).avlKey then down .oneSide (.right node)
        else down .equalLeft (.left node)
      | .equalLeft => down .equalRight (.right node)
      | .equalRight | .oneSide => searchLoop s target fuel rest

def lwpAvlFindNodeplace (s : AvlHeap) (target : ℕ) : Option (Option (List Nodeplace)) :=
  s.searchLoop target loopBound [(.ptree, .fresh)]

/-- The loop of `lwp_avl_remove` that goes to the last node of a left subtree: the node, its place and the stack. -/
def lastLoop (s : AvlHeap) : ℕ → Nodeplace → List Nodeplace → Option (ℕ × Nodeplace × List Nodeplace)
  | 0, _, _ => none
  | fuel + 1, nodeplace, stack =>
    match s.deref nodeplace with
    | none => none
    | some node =>
      if (s.node node).avlRight = none then some (node, nodeplace, stack)
      else if stack.length < avlMaxheight then lastLoop s fuel (.right node) (stack ++ [nodeplace])
      else none

def lwpAvlRemove (s : AvlHeap) (nodeToDelete : ℕ) : Option AvlHeap :=
  match s.lwpAvlFindNodeplace nodeToDelete with
  | none => none
  | some none => some s
  | some (some stack) =>
    match stack.getLast? with
    | none => none
    | some nodeplaceToDelete =>
      match s.deref nodeplaceToDelete with
      | none => none
      | some nodeToDelete =>
        if (s.node nodeToDelete).avlLeft = none then
          let s := s.assign nodeplaceToDelete (s.node nodeToDelete).avlRight
          s.lwpAvlRebalance stack.dropLast.reverse
        else
          match s.lastLoop (avlMaxheight + 1) (.left nodeToDelete) stack with
          | none => none
          | some (node, nodeplace, stack') =>
            if stack.length < avlMaxheight then
              let s := s.assign nodeplace (s.node node).avlLeft
              let s := s.assign (.left node) (s.node nodeToDelete).avlLeft
              let s := s.assign (.right node) (s.node nodeToDelete).avlRight
              let s := s.setHeight node (s.node nodeToDelete).avlHeight
              let s := s.assign nodeplaceToDelete (some node)
              s.lwpAvlRebalance (stack'.set stack.length (.left node)).reverse
            else none

/-- The loop of `lwp_avl_insert`. -/
def insertLoop (s : AvlHeap) (key : ℕ) : ℕ → Nodeplace → List Nodeplace → Option (Nodeplace × List Nodeplace)
  | 0, _, _ => none
  | fuel + 1, nodeplace, stack =>
    match s.deref nodeplace with
    | none => some (nodeplace, stack)
    | some node =>
      if stack.length < avlMaxheight then
        insertLoop s key fuel (if key < (s.node node).avlKey then .left node else .right node) (stack ++ [nodeplace])
      else none

def lwpAvlInsert (s : AvlHeap) (newNode : ℕ) : Option AvlHeap :=
  match s.insertLoop (s.node newNode).avlKey (avlMaxheight + 1) .ptree [] with
  | none => none
  | some (nodeplace, stack) =>
    let s := s.setNode newNode { s.node newNode with avlLeft := none, avlRight := none, avlHeight := 1 }
    let s := s.assign nodeplace (some newNode)
    s.lwpAvlRebalance stack.reverse

def findLoop (s : AvlHeap) (key : ℕ) : ℕ → Option ℕ → Option (Option ℕ)
  | 0, _ => none
  | _ + 1, none => some none
  | fuel + 1, some n =>
    if key = (s.node n).avlKey then some (some n)
    else if key < (s.node n).avlKey then findLoop s key fuel (s.node n).avlLeft
    else findLoop s key fuel (s.node n).avlRight

def lwpAvlFind (s : AvlHeap) (key : ℕ) (ptree : Option ℕ) : Option (Option ℕ) := s.findLoop key loopBound ptree

end AvlHeap

end RtSmart
