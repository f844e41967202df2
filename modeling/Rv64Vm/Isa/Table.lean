import Rv64Vm.Isa.Bitmanip
import Rv64Vm.Isa.Priv
import Rv64Vm.Isa.Rv64c
import Rv64Vm.Isa.Rv64d
import Rv64Vm.Isa.Rv64m
import Rv64Vm.Jit.Translators

/-! # Registered instructions

The tables that the `init_` functions register, each entry with its encoding
pattern, handler, immediate decoder and translator.
-/

namespace Rv64Vm

open Jit

structure Instruction where
  pattern : String
  func : Handler
  immDecode : Option (Inst → Word) := none
  /-- `none` is the null pointer: the instruction is only interpreted. -/
  jitFunc : Option JitFunc := none

namespace Instruction

/-- The bits of the pattern, leftmost first, that satisfy `p`. -/
def patternBits (i : Instruction) (p : Char → Bool) : Inst :=
  i.pattern.toList.foldl (fun bits ch => (bits <<< 1) ||| (if p ch then 1 else 0)) 0

def mask (i : Instruction) : Inst := i.patternBits fun ch => ch = '0' ∨ ch = '1'

/-- The source's `match`. -/
def matchBits (i : Instruction) : Inst := i.patternBits (· = '1')

def size (i : Instruction) : Nat := i.pattern.toList.length / 8

/-- `(inst & dinst->mask) == dinst->match` -/
def Matches (i : Instruction) (word : Inst) : Prop := word &&& i.mask = i.matchBits

instance (i : Instruction) (word : Inst) : Decidable (i.Matches word) :=
  inferInstanceAs (Decidable (_ = _))

end Instruction

def initRv64i : List Instruction := [
  ⟨"0000000**********000*****0110011", execADD, none, some jitADD⟩,
  ⟨"0000000**********000*****0111011", execADDW, none, some jitADDW⟩,
  ⟨"0100000**********000*****0110011", execSUB, none, some jitSUB⟩,
  ⟨"0100000**********000*****0111011", execSUBW, none, some jitSUBW⟩,
  ⟨"0000000**********100*****0110011", execXOR, none, some jitXOR⟩,
  ⟨"0000000**********110*****0110011", execOR, none, some jitOR⟩,
  ⟨"0000000**********111*****0110011", execAND, none, some jitAND⟩,
  ⟨"0000000**********001*****0110011", execSLL, none, some jitSLL⟩,
  ⟨"0000000**********001*****0111011", execSLLW, none, some jitSLLW⟩,
  ⟨"0000000**********101*****0110011", execSRL, none, some jitSRL⟩,
  ⟨"0000000**********101*****0111011", execSRLW, none, some jitSRLW⟩,
  ⟨"0100000**********101*****0110011", execSRA, none, some jitSRA⟩,
  ⟨"0100000**********101*****0111011", execSRAW, none, some jitSRAW⟩,
  ⟨"0000000**********010*****0110011", execSLT, none, some jitSLT⟩,
  ⟨"0000000**********011*****0110011", execSLTU, none, some jitSLTU⟩,
  ⟨"*****************000*****0010011", execADDI, immI, some jitADDI⟩,
  ⟨"*****************000*****0011011", execADDIW, immI, some jitADDIW⟩,
  ⟨"*****************100*****0010011", execXORI, immI, some jitXORI⟩,
  ⟨"*****************110*****0010011", execORI, immI, some jitORI⟩,
  ⟨"*****************111*****0010011", execANDI, immI, some jitANDI⟩,
  ⟨"000000***********001*****0010011", execSLLI, shamt64, some jitSLLI⟩,
  ⟨"0000000**********001*****0011011", execSLLIW, shamt, some jitSLLIW⟩,
  ⟨"0000000**********101*****0011011", execSRLIW, shamt, some jitSRLIW⟩,
  ⟨"0100000**********101*****0011011", execSRAIW, shamt, some jitSRAIW⟩,
  ⟨"000000***********101*****0010011", execSRLI, shamt64, some jitSRLI⟩,
  ⟨"010000***********101*****0010011", execSRAI, shamt64, some jitSRAI⟩,
  ⟨"*****************010*****0010011", execSLTI, immI, some jitSLTI⟩,
  ⟨"*****************011*****0010011", execSLTIU, immI, some jitSLTIU⟩,
  ⟨"*****************000*****0000011", execLB, immI, some jitLB⟩,
  ⟨"*****************001*****0000011", execLH, immI, some jitLH⟩,
  ⟨"*****************010*****0000011", execLW, immI, some jitLW⟩,
  ⟨"*****************011*****0000011", execLD, immI, some jitLD⟩,
  ⟨"*****************100*****0000011", execLBU, immI, some jitLBU⟩,
  ⟨"*****************101*****0000011", execLHU, immI, some jitLHU⟩,
  ⟨"*****************110*****0000011", execLWU, immI, some jitLWU⟩,
  ⟨"*****************000*****0100011", execSB, immS, some jitSB⟩,
  ⟨"*****************001*****0100011", execSH, immS, some jitSH⟩,
  ⟨"*****************010*****0100011", execSW, immS, some jitSW⟩,
  ⟨"*****************011*****0100011", execSD, immS, some jitSD⟩,
  ⟨"*****************000*****1100011", execBEQ, immB, some jitBEQ⟩,
  ⟨"*****************001*****1100011", execBNE, immB, some jitBNE⟩,
  ⟨"*****************100*****1100011", execBLT, immB, some jitBLT⟩,
  ⟨"*****************101*****1100011", execBGE, immB, some jitBGE⟩,
  ⟨"*****************110*****1100011", execBLTU, immB, some jitBLTU⟩,
  ⟨"*****************111*****1100011", execBGEU, immB, some jitBGEU⟩,
  ⟨"*************************1101111", execJAL, immJ, some jitJAL⟩,
  ⟨"*****************000*****1100111", execJALR, immI, some jitJALR⟩,
  ⟨"*************************0110111", execLUI, immU, some jitLUI⟩,
  ⟨"*************************0010111", execAUIPC, immU, some jitAUIPC⟩,
  ⟨"00000000000000000000000001110011", execECALL, none, none⟩,
  ⟨"00000000000100000000000001110011", execEBREAK, none, none⟩,
  ⟨"0000********00000000000000001111", execFENCE, immI, none⟩]

def initRv64m : List Instruction := [
  ⟨"0000001**********000*****0110011", execMUL, none, some jitMUL⟩,
  ⟨"0000001**********000*****0111011", execMULW, none, some jitMULW⟩,
  ⟨"0000001**********001*****0110011", execMULH, none, some jitMULH⟩,
  ⟨"0000001**********010*****0110011", execMULHSU, none, some jitMULHSU⟩,
  ⟨"0000001**********011*****0110011", execMULHU, none, some jitMULHU⟩,
  ⟨"0000001**********100*****0110011", execDIV, none, some jitDIV⟩,
  ⟨"0000001**********101*****0110011", execDIVU, none, some jitDIVU⟩,
  ⟨"0000001**********101*****0111011", execDIVUW, none, some jitDIVUW⟩,
  ⟨"0000001**********100*****0111011", execDIVW, none, some jitDIVW⟩,
  ⟨"0000001**********110*****0110011", execREM, none, some jitREM⟩,
  ⟨"0000001**********111*****0110011", execREMU, none, some jitREMU⟩,
  ⟨"0000001**********111*****0111011", execREMUW, none, some jitREMUW⟩,
  ⟨"0000001**********110*****0111011", execREMW, none, some jitREMW⟩]

def initRv64a : List Instruction := [
  ⟨"00001************010*****0101111", execAMOSWAPW, none, none⟩,
  ⟨"00000************010*****0101111", execAMOADDW, none, none⟩,
  ⟨"01100************010*****0101111", execAMOANDW, none, none⟩,
  ⟨"00100************010*****0101111", execAMOXORW, none, none⟩,
  ⟨"01000************010*****0101111", execAMOORW, none, none⟩,
  ⟨"10000************010*****0101111", execAMOMINW, none, none⟩,
  ⟨"11000************010*****0101111", execAMOMINUW, none, none⟩,
  ⟨"10100************010*****0101111", execAMOMAXW, none, none⟩,
  ⟨"11100************010*****0101111", execAMOMAXUW, none, none⟩,
  ⟨"00010************010*****0101111", execLRW, none, none⟩,
  ⟨"00011************010*****0101111", execSCW, none, none⟩,
  ⟨"00001************011*****0101111", execAMOSWAPD, none, none⟩,
  ⟨"00000************011*****0101111", execAMOADDD, none, none⟩,
  ⟨"01100************011*****0101111", execAMOANDD, none, none⟩,
  ⟨"00100************011*****0101111", execAMOXORD, none, none⟩,
  ⟨"01000************011*****0101111", execAMOORD, none, none⟩,
  ⟨"10000************011*****0101111", execAMOMIND, none, none⟩,
  ⟨"11000************011*****0101111", execAMOMINUD, none, none⟩,
  ⟨"10100************011*****0101111", execAMOMAXD, none, none⟩,
  ⟨"11100************011*****0101111", execAMOMAXUD, none, none⟩,
  ⟨"00010************011*****0101111", execLRD, none, none⟩,
  ⟨"00011************011*****0101111", execSCD, none, none⟩]

def initRv64f : List Instruction := [
  ⟨"*****00******************1000011", execFMADDS, none, none⟩,
  ⟨"*****00******************1000111", execFMSUBS, none, none⟩,
  ⟨"*****00******************1001111", execFNMADDS, none, none⟩,
  ⟨"*****00******************1001011", execFNMSUBS, none, none⟩,
  ⟨"0000000******************1010011", execFADDS, none, none⟩,
  ⟨"0000100******************1010011", execFSUBS, none, none⟩,
  ⟨"0001000******************1010011", execFMULS, none, none⟩,
  ⟨"0001100******************1010011", execFDIVS, none, none⟩,
  ⟨"010110000000*************1010011", execFSQRTS, none, none⟩,
  ⟨"0010000**********000*****1010011", execFSGNJS, none, none⟩,
  ⟨"0010000**********001*****1010011", execFSGNJNS, none, none⟩,
  ⟨"0010000**********010*****1010011", execFSGNJXS, none, none⟩,
  ⟨"0010100**********000*****1010011", execFMINS, none, none⟩,
  ⟨"0010100**********001*****1010011", execFMAXS, none, none⟩,
  ⟨"110000000000*************1010011", execFCVTWS, none, none⟩,
  ⟨"110000000001*************1010011", execFCVTWUS, none, none⟩,
  ⟨"110100000000*************1010011", execFCVTSW, none, none⟩,
  ⟨"110100000001*************1010011", execFCVTSWU, none, none⟩,
  ⟨"110000000010*************1010011", execFCVTLS, none, none⟩,
  ⟨"110000000011*************1010011", execFCVTLUS, none, none⟩,
  ⟨"110100000010*************1010011", execFCVTSL, none, none⟩,
  ⟨"110100000011*************1010011", execFCVTSLU, none, none⟩,
  ⟨"111000000000*****000*****1010011", execFMVXW, none, none⟩,
  ⟨"111100000000*****000*****1010011", execFMVWX, none, none⟩,
  ⟨"1010000**********010*****1010011", execFEQS, none, none⟩,
  ⟨"1010000**********001*****1010011", execFLTS, none, none⟩,
  ⟨"1010000**********000*****1010011", execFLES, none, none⟩,
  ⟨"111000000000*****001*****1010011", execFCLASSS, none, none⟩,
  ⟨"*****************010*****0000111", execFLW, immI, none⟩,
  ⟨"*****************010*****0100111", execFSW, immS, none⟩]

def initRv64d : List Instruction := [
  ⟨"*****01******************1000011", execFMADDD, none, none⟩,
  ⟨"*****01******************1000111", execFMSUBD, none, none⟩,
  ⟨"*****01******************1001111", execFNMADDD, none, none⟩,
  ⟨"*****01******************1001011", execFNMSUBD, none, none⟩,
  ⟨"0000001******************1010011", execFADDD, none, none⟩,
  ⟨"0000101******************1010011", execFSUBD, none, none⟩,
  ⟨"0001001******************1010011", execFMULD, none, none⟩,
  ⟨"0001101******************1010011", execFDIVD, none, none⟩,
  ⟨"010110100000*************1010011", execFSQRTD, none, none⟩,
  ⟨"0010001**********000*****1010011", execFSGNJD, none, none⟩,
  ⟨"0010001**********001*****1010011", execFSGNJND, none, none⟩,
  ⟨"0010001**********010*****1010011", execFSGNJXD, none, none⟩,
  ⟨"0010101**********000*****1010011", execFMIND, none, none⟩,
  ⟨"0010101**********001*****1010011", execFMAXD, none, none⟩,
  ⟨"010000000001*************1010011", execFCVTSD, none, none⟩,
  ⟨"010000100000*************1010011", execFCVTDS, none, none⟩,
  ⟨"110000100000*************1010011", execFCVTWD, none, none⟩,
  ⟨"110000100001*************1010011", execFCVTWUD, none, none⟩,
  ⟨"110100100000*************1010011", execFCVTDW, none, none⟩,
  ⟨"110100100001*************1010011", execFCVTDWU, none, none⟩,
  ⟨"110000100010*************1010011", execFCVTLD, none, none⟩,
  ⟨"110000100011*************1010011", execFCVTLUD, none, none⟩,
  ⟨"110100100010*************1010011", execFCVTDL, none, none⟩,
  ⟨"110100100011*************1010011", execFCVTDLU, none, none⟩,
  ⟨"111000100000*****000*****1010011", execFMVXD, none, none⟩,
  ⟨"111100100000*****000*****1010011", execFMVDX, none, none⟩,
  ⟨"1010001**********010*****1010011", execFEQD, none, none⟩,
  ⟨"1010001**********001*****1010011", execFLTD, none, none⟩,
  ⟨"1010001**********000*****1010011", execFLED, none, none⟩,
  ⟨"111000100000*****001*****1010011", execFCLASSD, none, none⟩,
  ⟨"*****************011*****0000111", execFLD, immI, none⟩,
  ⟨"*****************011*****0100111", execFSD, immS, none⟩]

def initRv64c : List Instruction := [
  ⟨"000***********00", execCADDI4SPN, dCUimm, some jitCADDI4SPN⟩,
  ⟨"010***********00", execCLW, dCUimmCl, some jitCLW⟩,
  ⟨"011***********00", execCLD, dCUimmCl1, some jitCLD⟩,
  ⟨"110***********00", execCSW, dCUimmCl, some jitCSW⟩,
  ⟨"111***********00", execCSD, dCUimmCl1, some jitCSD⟩,
  ⟨"0000000000000001", execCNOP, none, some jitCNOP⟩,
  ⟨"000***********01", execCADDI, dCNzimm, some jitCADDI⟩,
  ⟨"001***********01", execCADDIW, dCNzimm, some jitCADDIW⟩,
  ⟨"010***********01", execCLI, dCNzimm, some jitCLI⟩,
  ⟨"011***********01", execCLUIADDI16SP, dCNzimm, some jitCLUIADDI16SP⟩,
  ⟨"100*00********01", execCSRLI, dCUimmArith, some jitCSRLI⟩,
  ⟨"100*01********01", execCSRAI, dCUimmArith, some jitCSRAI⟩,
  ⟨"100*10********01", execCANDI, dCUimmArith, some jitCANDI⟩,
  ⟨"100011***00***01", execCSUB, none, some jitCSUB⟩,
  ⟨"100011***01***01", execCXOR, none, some jitCXOR⟩,
  ⟨"100011***10***01", execCOR, none, some jitCOR⟩,
  ⟨"100011***11***01", execCAND, none, some jitCAND⟩,
  ⟨"100111***00***01", execCSUBW, none, some jitCSUBW⟩,
  ⟨"100111***01***01", execCADDW, none, some jitCADDW⟩,
  ⟨"101***********01", execCJ, dCJImm, some jitCJ⟩,
  ⟨"110***********01", execCBEQZ, dCBImm, some jitCBEQZ⟩,
  ⟨"111***********01", execCBNEZ, dCBImm, some jitCBNEZ⟩,
  ⟨"000***********10", execCSLLI, dCUimmArith, some jitCSLLI⟩,
  ⟨"010***********10", execCLWSP, dCUimmLwsp, some jitCLWSP⟩,
  ⟨"011***********10", execCLDSP, dCUimmLdsp, some jitCLDSP⟩,
  ⟨"1000*****0000010", execCJR, none, some jitCJR⟩,
  ⟨"1000**********10", execCMV, none, some jitCMV⟩,
  ⟨"1001000000000010", execCEBREAK, none, none⟩,
  ⟨"1001*****0000010", execCJALR, none, some jitCJALR⟩,
  ⟨"1001**********10", execCADD, none, some jitCADD⟩,
  ⟨"110***********10", execCSWSP, dCUimmSwsp, some jitCSWSP⟩,
  ⟨"111***********10", execCSDSP, dCUimmSdsp, some jitCSDSP⟩,
  ⟨"001***********00", execCFLD, dCUimmCl1, none⟩,
  ⟨"101***********00", execCFSD, dCUimmCl1, none⟩,
  ⟨"001***********10", execCFLDSP, dCUimmLdsp, none⟩,
  ⟨"101***********10", execCFSDSP, dCUimmSdsp, none⟩]

def initPriv : List Instruction := [
  ⟨"00110000001000000000000001110011", execMRET, none, none⟩,
  ⟨"00010000001000000000000001110011", execSRET, none, none⟩,
  ⟨"00010000010100000000000001110011", execWFI, none, none⟩,
  ⟨"0001001**********000000001110011", execSFENCEVMA, none, none⟩]

def initZicsr : List Instruction := [
  ⟨"*****************001*****1110011", execCSRRW, immZicsr, none⟩,
  ⟨"*****************010*****1110011", execCSRRS, immZicsr, none⟩,
  ⟨"*****************011*****1110011", execCSRRC, immZicsr, none⟩,
  ⟨"*****************101*****1110011", execCSRRWI, immZicsr, none⟩,
  ⟨"*****************110*****1110011", execCSRRSI, immZicsr, none⟩,
  ⟨"*****************111*****1110011", execCSRRCI, immZicsr, none⟩]

def initZifencei : List Instruction := [
  ⟨"*****************001*****0001111", execFENCEI, none, none⟩]

def initZba : List Instruction := [
  ⟨"0000100**********000*****0111011", execADDUW, none, none⟩,
  ⟨"0010000**********010*****0110011", execSH1ADD, none, none⟩,
  ⟨"0010000**********010*****0111011", execSH1ADDUW, none, none⟩,
  ⟨"0010000**********100*****0110011", execSH2ADD, none, none⟩,
  ⟨"0010000**********100*****0111011", execSH2ADDUW, none, none⟩,
  ⟨"0010000**********110*****0110011", execSH3ADD, none, none⟩,
  ⟨"0010000**********110*****0111011", execSH3ADDUW, none, none⟩,
  ⟨"000010***********001*****0011011", execSLLIUW, none, none⟩]

def initZbb : List Instruction := [
  ⟨"0100000**********111*****0110011", execANDN, none, none⟩,
  ⟨"0100000**********110*****0110011", execORN, none, none⟩,
  ⟨"0100000**********100*****0110011", execXNOR, none, none⟩,
  ⟨"011000000000*****001*****0010011", execCLZ, none, none⟩,
  ⟨"011000000000*****001*****0011011", execCLZW, none, none⟩,
  ⟨"011000000001*****001*****0010011", execCTZ, none, none⟩,
  ⟨"011000000001*****001*****0011011", execCTZW, none, none⟩,
  ⟨"011000000010*****001*****0010011", execCPOP, none, none⟩,
  ⟨"011000000010*****001*****0011011", execCPOPW, none, none⟩,
  ⟨"0000101**********110*****0110011", execMAX, none, none⟩,
  ⟨"0000101**********111*****0110011", execMAXU, none, none⟩,
  ⟨"0000101**********100*****0110011", execMIN, none, none⟩,
  ⟨"0000101**********101*****0110011", execMINU, none, none⟩,
  ⟨"011000000100*****001*****0010011", execSEXTB, none, none⟩,
  ⟨"011000000101*****001*****0010011", execSEXTH, none, none⟩,
  ⟨"000010000000*****100*****0111011", execZEXTH, none, none⟩,
  ⟨"0110000**********001*****0110011", execROL, none, none⟩,
  ⟨"0110000**********001*****0111011", execROLW, none, none⟩,
  ⟨"0110000**********101*****0110011", execROR, none, none⟩,
  ⟨"011000***********101*****0010011", execRORI, none, none⟩,
  ⟨"0110000**********101*****0011011", execRORIW, none, none⟩,
  ⟨"0110000**********101*****0111011", execRORW, none, none⟩,
  ⟨"001010000111*****101*****0010011", execORCB, none, none⟩,
  ⟨"011010111000*****101*****0010011", execREV8, none, none⟩]

def initZbc : List Instruction := [
  ⟨"0000101**********001*****0110011", execCLMUL, none, none⟩,
  ⟨"0000101**********011*****0110011", execCLMULH, none, none⟩,
  ⟨"0000101**********010*****0110011", execCLMULR, none, none⟩]

def initZbs : List Instruction := [
  ⟨"0100100**********001*****0110011", execBCLR, none, none⟩,
  ⟨"010010***********001*****0010011", execBCLRI, none, none⟩,
  ⟨"0100100**********101*****0110011", execBEXT, none, none⟩,
  ⟨"010010***********101*****0010011", execBEXTI, none, none⟩,
  ⟨"0110100**********001*****0110011", execBINV, none, none⟩,
  ⟨"011010***********001*****0010011", execBINVI, none, none⟩,
  ⟨"0010100**********001*****0110011", execBSET, none, none⟩,
  ⟨"001010***********001*****0010011", execBSETI, none, none⟩]

def initZicboz : List Instruction := [
  ⟨"000000000100*****010000000001111", execCboZero, none, none⟩]

/-- `init_all_instrs`: the table in the order of registration. -/
def instructions : List Instruction :=
  initRv64i ++ initRv64m ++ initRv64a ++ initRv64f ++ initRv64d ++ initRv64c ++ initPriv ++ initZicsr ++
    initZifencei ++ initZba ++ initZbb ++ initZbc ++ initZbs ++ initZicboz

end Rv64Vm
