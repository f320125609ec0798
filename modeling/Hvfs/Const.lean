/-
This file carries over the constants of the metadata server's headers: the
error numbers the handlers return, the request flags of `mds_api.h`, and the
entry flags of `ite.h`.

A flag word is a bit vector, and a test `flag & MASK` of the source is
`Flag.has flag MASK` here.
-/

import Mathlib.Algebra.Order.Group.Nat
import Mathlib.Algebra.Ring.Int.Defs
import Mathlib.Tactic.Common

namespace Hvfs

abbrev U8 := BitVec 8
abbrev U16 := BitVec 16
abbrev U32 := BitVec 32
abbrev U64 := BitVec 64

/-! ### Error numbers -/

def ENOENT : Int := 2
def EAGAIN : Int := 11
def ENOMEM : Int := 12
def EACCES : Int := 13
def EFAULT : Int := 14
def EEXIST : Int := 17
def EINVAL : Int := 22
def ECHP : Int := 1026
def ESPLIT : Int := 1028
def ENOTEXIST : Int := 1029

/-- `MAX_ERRNO`. -/
def MAX_ERRNO : Int := 4095

/-- The numbers that `IS_ERR` recognises after `ERR_PTR`. -/
def IsErrno (err : Int) : Prop := -MAX_ERRNO ≤ err ∧ err < 0

instance (err : Int) : Decidable (IsErrno err) := inferInstanceAs (Decidable (_ ∧ _))

/-! ### Flag words -/

/-- The test `flag & mask` of a C condition. -/
def Flag.has {width : Nat} (flag mask : BitVec width) : Bool := flag &&& mask != 0

theorem Flag.has_or {width : Nat} (flag extra mask : BitVec width) :
    Flag.has (flag ||| extra) mask = (Flag.has flag mask || Flag.has extra mask) := by
  have split : (flag ||| extra) &&& mask = (flag &&& mask) ||| (extra &&& mask) := by
    ext bit bound
    simp only [BitVec.getElem_and, BitVec.getElem_or, Bool.and_or_distrib_right]
  have zero : (flag &&& mask) ||| (extra &&& mask) = 0 ↔
      flag &&& mask = 0 ∧ extra &&& mask = 0 := BitVec.or_eq_zero_iff
  unfold Flag.has
  rw [split, Bool.eq_iff_iff, Bool.or_eq_true, bne_iff_ne, bne_iff_ne, bne_iff_ne, Ne, zero]
  exact not_and_or

/-! ### Request flags (`struct hvfs_index`) -/

def INDEX_BY_NAME : U32 := 0x00000001#32
def INDEX_BY_UUID : U32 := 0x00000002#32
def INDEX_BY_ITB : U32 := 0x00000004#32
def INDEX_LOOKUP : U32 := 0x00000010#32
def INDEX_LINK_ADD : U32 := 0x00000100#32
def INDEX_CREATE : U32 := 0x00001000#32
def INDEX_CREATE_LINK : U32 := 0x00002000#32
def INDEX_CREATE_DIR : U32 := 0x00004000#32
def INDEX_CREATE_COPY : U32 := 0x00008000#32
def INDEX_CREATE_FORCE : U32 := 0x00010000#32
def INDEX_CREATE_LARGE : U32 := 0x00020000#32
def INDEX_CREATE_SMALL : U32 := 0x00040000#32
def INDEX_MDU_UPDATE : U32 := 0x00100000#32
def INDEX_UNLINK : U32 := 0x00200000#32
def INDEX_SYMLINK : U32 := 0x00400000#32
def INDEX_ITE_ACTIVE : U32 := 0x01000000#32
def INDEX_ITE_SHADOW : U32 := 0x02000000#32

/-! ### Entry flags (`struct ite`) -/

def ITE_ACTIVE : U32 := 0x00000000#32
def ITE_UNLINKED : U32 := 0x00000001#32
def ITE_SHADOW : U32 := 0x00000003#32
def ITE_STATE_MASK : U32 := 0x00000007#32
def ITE_FLAG_NORMAL : U32 := 0x80000000#32
def ITE_FLAG_LS : U32 := 0x40000000#32
def ITE_FLAG_GDT : U32 := 0x20000000#32
def ITE_FLAG_SDT : U32 := 0x10000000#32
def ITE_FLAG_LARGE : U32 := 0x08000000#32
def ITE_FLAG_SMALL : U32 := 0x04000000#32

/-! ### Attribute flags (`struct mdu`) and the fields an update selects (`struct mdu_update`) -/

def HVFS_MDU_IF_NORMAL : U32 := 0x08000000#32
def HVFS_MDU_IF_LARGE : U32 := 0x04000000#32
def HVFS_MDU_IF_SMALL : U32 := 0x02000000#32
def HVFS_MDU_IF_SYMLINK : U32 := 0x01000000#32
def HVFS_MDU_IF_LINKT : U32 := 0x00800000#32

def MU_MODE : U32 := 0x001#32
def MU_UID : U32 := 0x002#32
def MU_GID : U32 := 0x004#32
def MU_FLAG_ADD : U32 := 0x008#32
def MU_ATIME : U32 := 0x010#32
def MU_MTIME : U32 := 0x020#32
def MU_CTIME : U32 := 0x040#32
def MU_VERSION : U32 := 0x080#32
def MU_SIZE : U32 := 0x100#32
def MU_FLAG_CLR : U32 := 0x200#32
def MU_COLUMN : U32 := 0x400#32

/-! ### Reply flags (`struct hvfs_md_reply`) and the regions that `hmr_extract` returns -/

def MD_REPLY_DIR_SDT : U32 := 0x01#32
def MD_REPLY_READDIR : U32 := 0x02#32
def MD_REPLY_WITH_HI : U32 := 0x10#32
def MD_REPLY_WITH_MDU : U32 := 0x20#32
def MD_REPLY_WITH_LS : U32 := 0x40#32
def MD_REPLY_WITH_BITMAP : U32 := 0x80#32

def EXTRACT_HI : U32 := 0x10#32
def EXTRACT_MDU : U32 := 0x20#32
def EXTRACT_LS : U32 := 0x40#32
def EXTRACT_BITMAP : U32 := 0x80#32

/-! ### Sizes -/

def HVFS_MAX_NAME_LEN : Nat := 256
def HVFS_UUID_HIGHEST_BIT : U64 := 0x8000000000000000#64

end Hvfs
