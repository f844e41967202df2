import Rv64Vm.Core.Types
import Rv64Vm.Lib.GrowVec

/-! # Self-modifying-code tracking

The global epoch, the executed-page bitmap and the per-page code generation of
`self_mod.hpp`. Epochs are unbounded counters here; the source's are 64 bits
wide and only ever incremented or compared.
-/

namespace Rv64Vm

open Lib

/-- Index of the 4 KiB page of a physical address. -/
def pageOf (phys : Word) : Nat := (phys >>> 12).toNat

structure SelfMod where
  /-- `g_smc_epoch` -/
  smcEpoch : Nat := 0
  /-- `g_executed_pages` -/
  executedPages : GrowVec Bool := .empty false
  /-- `g_code_page_gen` -/
  codePageGen : GrowVec Nat := .empty 0

namespace SelfMod

def markPageExecuted (s : SelfMod) (phys : Word) : SelfMod :=
  { s with executedPages := s.executedPages.put (pageOf phys) 8192 false true }

def wasPageExecuted (s : SelfMod) (phys : Word) : Bool :=
  s.executedPages.get? (pageOf phys) == some true

/-- A store to an executed page: bump the epoch if the page holds code of the
    current epoch, otherwise drop the stale executed bit. -/
def smcStoreHit (s : SelfMod) (phys : Word) : SelfMod :=
  if s.executedPages.get? (pageOf phys) = some true then
    if s.codePageGen.get? (pageOf phys) = some s.smcEpoch then { s with smcEpoch := s.smcEpoch + 1 }
    else { s with executedPages := s.executedPages.set (pageOf phys) false }
  else s

def invalidateAll (s : SelfMod) : SelfMod := { s with smcEpoch := s.smcEpoch + 1 }

end SelfMod

end Rv64Vm
