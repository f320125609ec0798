/-
This file says what a block of entries is for: a finite map from names to
metadata. Removing a name only unbinds it; the entry it used is reclaimed later,
at a time of the system's choosing, and until then counts against the capacity.
-/

import Hvfs.Ite
import Mathlib.Data.Finmap

namespace Hvfs

/-! ### Metadata updates -/

/-- The fields of an update that are marked valid replace those of the metadata; the two flag
fields set and clear flags. -/
def Mdu.store (mdu : Mdu) (mu : MduUpdate) : Mdu where
  size := if Flag.has mu.valid MU_SIZE then mu.size else mdu.size
  dev := mdu.dev
  mode := if Flag.has mu.valid MU_MODE then mu.mode else mdu.mode
  nlink := mdu.nlink
  uid := if Flag.has mu.valid MU_UID then mu.uid else mdu.uid
  gid := if Flag.has mu.valid MU_GID then mu.gid else mdu.gid
  flags :=
    (if Flag.has mu.valid MU_FLAG_ADD then mdu.flags ||| mu.flags else mdu.flags) &&&
      (if Flag.has mu.valid MU_FLAG_CLR then ~~~mu.flags else BitVec.allOnes 32)
  atime := if Flag.has mu.valid MU_ATIME then mu.atime else mdu.atime
  ctime := if Flag.has mu.valid MU_CTIME then mu.ctime else mdu.ctime
  mtime := if Flag.has mu.valid MU_MTIME then mu.mtime else mdu.mtime
  dtime := mdu.dtime
  version := if Flag.has mu.valid MU_VERSION then mu.version else mdu.version
  symname := mdu.symname

/-- The metadata of a new name: a normal entry with one link, and what the request adds. -/
def Mdu.created (mu : Option MduUpdate) : Mdu :=
  match mu with
  | none => { flags := HVFS_MDU_IF_NORMAL, nlink := 1 }
  | some mu => ({ flags := HVFS_MDU_IF_NORMAL, nlink := 1 } : Mdu).store mu

/-- What a reply shows of a name: its metadata and the first bytes of the name itself. -/
def nameReply (name : List U8) (mdu : Mdu) : MduReply where
  mdu := mdu
  tail := (List.range 24).map fun k => name.getD k 0

/-! ### The map -/

/-- The four operations on a name. -/
inductive NameOp
  | create
  | lookup
  | update
  | unlink
  deriving DecidableEq, Repr

/-- The names that are bound, and the number of entries that wait to be reclaimed. -/
structure NameStore where
  bound : Finmap fun _ : List U8 => Mdu
  unreclaimed : Nat

/-- The number of entries that count against the capacity. -/
def NameStore.load (store : NameStore) : Nat := store.bound.keys.card + store.unreclaimed

/-- What an operation shows its caller. -/
structure NameAnswer where
  err : Int
  data : Option MduReply
  deriving DecidableEq, Repr

/-- The answer of an operation on a name, and the store it leaves. -/
def NameStore.run (capacity : Nat) (store : NameStore) (op : NameOp) (name : List U8)
    (mu : Option MduUpdate) : NameAnswer × NameStore :=
  match op, store.bound.lookup name with
  | .create, some _ => (⟨-EEXIST, none⟩, store)
  | .create, none =>
    if store.load = capacity then (⟨-ESPLIT, none⟩, store)
    else (⟨0, some (nameReply name (Mdu.created mu))⟩,
      { store with bound := store.bound.insert name (Mdu.created mu) })
  | .lookup, some mdu => (⟨0, some (nameReply name mdu)⟩, store)
  | .update, some mdu =>
    let mdu := (mu.map mdu.store).getD mdu
    (⟨0, some (nameReply name mdu)⟩, { store with bound := store.bound.insert name mdu })
  | .unlink, some mdu =>
    (⟨0, some (nameReply name { mdu with nlink := mdu.nlink - 1 })⟩,
      ⟨store.bound.erase name, store.unreclaimed + 1⟩)
  | _, none => (⟨-ENOENT, none⟩, store)

/-! ### Facts about the load -/

theorem keys_insert (bound : Finmap fun _ : List U8 => Mdu) (name : List U8) (mdu : Mdu) :
    (bound.insert name mdu).keys = insert name bound.keys := by
  ext other
  rw [Finmap.mem_keys, Finmap.mem_insert, Finset.mem_insert, Finmap.mem_keys]

theorem card_keys_insert_new {bound : Finmap fun _ : List U8 => Mdu} {name : List U8}
    (unbound : bound.lookup name = none) (mdu : Mdu) :
    (bound.insert name mdu).keys.card = bound.keys.card + 1 := by
  rw [keys_insert, Finset.card_insert_of_notMem]
  rw [Finmap.mem_keys]
  exact Finmap.lookup_eq_none.mp unbound

theorem card_keys_insert_old {bound : Finmap fun _ : List U8 => Mdu} {name : List U8} {mdu : Mdu}
    (known : bound.lookup name = some mdu) (after : Mdu) :
    (bound.insert name after).keys.card = bound.keys.card := by
  rw [keys_insert, Finset.insert_eq_of_mem]
  rw [Finmap.mem_keys]
  exact Finmap.mem_of_lookup_eq_some known

theorem card_keys_erase {bound : Finmap fun _ : List U8 => Mdu} {name : List U8} {mdu : Mdu}
    (known : bound.lookup name = some mdu) :
    (bound.erase name).keys.card + 1 = bound.keys.card := by
  rw [Finmap.keys_erase, Finset.card_erase_add_one]
  rw [Finmap.mem_keys]
  exact Finmap.mem_of_lookup_eq_some known

end Hvfs
