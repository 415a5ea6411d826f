import Vmecs.Toml.Table

/-!
# Objects and their generation from the syntax tree (`toml/ast.c`, `toml/obj.c`)

The objects of a document are values, and tables that map keys to objects. A table is reached
through pointers, of which two live at a time while a document is built: the root, and the table
that the last header has made current. So the tables lie in a heap, as a list indexed by addresses,
and an object that is a table is an address.

A failed assertion is `none`; the one that can fail in earnest is that of `hash_table_insert`.
-/

namespace Vmecs

/-! ### The syntax tree -/

/-- `ast_node_key_t`, with the identifiers that its `next` pointers lead to. -/
structure AstKey where
  id : CString
  next : List CString
  deriving DecidableEq

/-- `ast_node_value_t`. -/
inductive AstValue where
  | int (val : Int64)
  | bool (val : Bool)
  | string (str : CString)
  deriving DecidableEq

/-- `ast_node_entry_t`: without a value a table declaration, without a key one of the root; the
`next` pointers make a list of entries. -/
structure AstEntry where
  key : Option AstKey
  value : Option AstValue
  deriving DecidableEq

/-! ### Objects -/

/-- `object_t`. -/
inductive Object where
  | int (val : Int64)
  | bool (val : Bool)
  | string (str : CString)
  | table (addr : ℕ)
  deriving DecidableEq

/-- The tables, by their addresses. -/
abbrev Heap := List (HashTable Object)

/-- `_ast_node_int_gen`, `_ast_node_bool_gen` and `_ast_node_string_gen`. -/
def AstValue.gen : AstValue → Object
  | int val => .int val
  | bool val => .bool val
  | string str => .string str

/-- `table_object_lookup`. -/
def tableObjectLookup (heap : Heap) (obj : ℕ) (key : CString) : Option Object :=
  heap[obj]?.bind fun table ↦ hashTableLookup table key

/-- `table_object_insert`. -/
def tableObjectInsert (heap : Heap) (obj : ℕ) (key : CString) (val : Object) : Option Heap := do
  let table ← heap[obj]?
  let table' ← hashTableInsert table key val
  some (heap.set obj table')

/-- `table_object_new`: the heap, and the address of the new table. -/
def tableObjectNew (heap : Heap) : Heap × ℕ := (heap ++ [hashTableNew], heap.length)

/-! ### Generation -/

/-- The loop over the identifiers of a key but the last, from table `sub` on: the table it ends in
and the last identifier, or nothing inside (`sub = NULL`) when there is a value on the way. -/
def astKeyWalk : Heap → ℕ → CString → List CString → Option (Heap × Option (ℕ × CString))
  | heap, sub, id, [] => some (heap, some (sub, id))
  | heap, sub, id, next :: rest =>
    match tableObjectLookup heap sub id with
    | none => do
      let (heap, tmp) := tableObjectNew heap
      let heap ← tableObjectInsert heap sub id (.table tmp)
      astKeyWalk heap tmp next rest
    | some (.table tmp) => astKeyWalk heap tmp next rest
    | some _ => some (heap, none)

/-- The message of the only error. -/
def overridingValue : String := "overriding value"

/-- One turn of the loop of `_ast_node_entry_gen`: the heap and the current table afterwards. -/
def astNodeEntryStep (root : ℕ) (heap : Heap) (curEnv : ℕ) (node : AstEntry) :
    Option (Except String (Heap × ℕ)) :=
  match node.key with
  | none => if node.value = none then some (.ok (heap, root)) else none
  | some key => do
    let sub := if node.value = none then root else curEnv
    let (heap, walked) ← astKeyWalk heap sub key.id key.next
    match walked with
    | none => some (.error overridingValue)
    | some (sub, keyId) =>
      if (tableObjectLookup heap sub keyId).isSome then some (.error overridingValue)
      else
        match node.value with
        | some value => do
          let heap ← tableObjectInsert heap sub keyId value.gen
          some (.ok (heap, curEnv))
        | none => do
          let (heap, newEnv) := tableObjectNew heap
          let heap ← tableObjectInsert heap sub keyId (.table newEnv)
          some (.ok (heap, newEnv))

/-- The loop of `_ast_node_entry_gen`. -/
def astNodeEntryLoop (root : ℕ) : Heap → ℕ → List AstEntry → Option (Except String Heap)
  | heap, _, [] => some (.ok heap)
  | heap, curEnv, node :: nodes =>
    match astNodeEntryStep root heap curEnv node with
    | none => none
    | some (.error msg) => some (.error msg)
    | some (.ok (heap, curEnv)) => astNodeEntryLoop root heap curEnv nodes

/-- `_ast_node_entry_gen`: the root table, at address 0 of the heap, or the message of an error. -/
def astNodeEntryGen (nodes : List AstEntry) : Option (Except String Heap) :=
  let (heap, root) := tableObjectNew []
  astNodeEntryLoop root heap root nodes

/-! ### Lookup -/

/-- One turn of the loop of `toml_lookup`. -/
def tomlLookupStep (heap : Heap) (cur : Object) (id : CString) : Except String Object :=
  match cur with
  | .table addr =>
    match tableObjectLookup heap addr id with
    | some obj => .ok obj
    | none => .error "path not exist"
  | _ => .error "an object on the path is not a table"

/-- The loop of `toml_lookup` over the identifiers of a key path, from the object `root`. -/
def tomlLookupPath (heap : Heap) (root : ℕ) (path : List CString) : Except String Object :=
  path.foldlM (tomlLookupStep heap) (.table root)

end Vmecs
