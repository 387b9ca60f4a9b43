/-
  TinyOs.Lib.PrintCode — put_char, put_str and put_int cut at their accesses (lib/kernel/print.S).

  Every `in` and `out`, every load and store, every round of `rep movsd` is an access of
  its own: the timer comes between any two of them. The registers and the thread's own
  stack are in the continuations. With nobody in between these are the functions of
  `TinyOs.Lib.Print` and `TinyOs.Lib.PutInt` (`run_putCharCode`, `run_putStrCode`,
  `run_putIntCode`).
-/

import TinyOs.Lib.PutInt
import TinyOs.Logic.Sections

namespace TinyOs.Lib

open TinyOs.Kernel TinyOs.Logic TinyOs.Logic.Code Screen

abbrev PrintCode := Code Screen Stop

def getCursorCode (k : BitVec 16 → PrintCode) : PrintCode :=
  write (outb 0x3d4 0x0e) <| read (inb 0x3d5) fun ah =>
  write (outb 0x3d4 0x0f) <| read (inb 0x3d5) fun al => k (ah ++ al)

def setCursorCode (bx : BitVec 16) (k : PrintCode) : PrintCode :=
  write (outb 0x3d4 0x0e) <| write (outb 0x3d5 ((bx >>> 8).setWidth 8)) <|
  write (outb 0x3d4 0x0f) <| write (outb 0x3d5 (bx.setWidth 8)) k

def movsdCode : Nat → Nat → Nat → PrintCode → PrintCode
  | 0, _, _, k => k
  | ecx + 1, esi, edi, k => write (fun s => s.write32 edi (s.mem.read32 esi)) (movsdCode ecx (esi + 4) (edi + 4) k)

def clsCode : Nat → Nat → PrintCode → PrintCode
  | 0, _, k => k
  | ecx + 1, ebx, k => attempt (gsStore16 ebx 0x0720) (clsCode ecx (ebx + 2) k)

def rollScreenCode (k : PrintCode) : PrintCode := movsdCode 960 0xb80a0 0xb8000 (clsCode 80 3840 k)

def lineFeedCode (bx : BitVec 16) (k : PrintCode) : PrintCode :=
  let dx := bx % 80
  let bx := bx - dx
  let bx := bx + 80
  if bx.slt 2000 then setCursorCode bx k else rollScreenCode (setCursorCode 1920 k)

def backspaceCode (bx : BitVec 16) (k : PrintCode) : PrintCode :=
  let bx := bx - 1
  let bx := bx <<< 1
  attempt (gsStore8 bx.toNat 0x20) <|
  let bx := bx + 1
  attempt (gsStore8 bx.toNat 0x07) <|
  let bx := bx >>> 1
  setCursorCode bx k

def putOtherCode (cl : BitVec 8) (bx : BitVec 16) (k : PrintCode) : PrintCode :=
  let bx := bx <<< 1
  attempt (gsStore8 bx.toNat cl) <|
  let bx := bx + 1
  attempt (gsStore8 bx.toNat 0x07) <|
  let bx := bx >>> 1
  let bx := bx + 1
  if bx.slt 2000 then setCursorCode bx k else lineFeedCode bx k

def putCharCode (cl : BitVec 8) (k : PrintCode) : PrintCode :=
  getCursorCode fun bx =>
    if cl = 0x0d then lineFeedCode bx k
    else if cl = 0x0a then lineFeedCode bx k
    else if cl = 0x08 then backspaceCode bx k
    else putOtherCode cl bx k

/-- No round is left. -/
def divergeCode : PrintCode := attempt (fun _ => .error .diverge) .done

def putStrCode : Nat → Nat → PrintCode
  | 0, _ => divergeCode
  | fuel + 1, ebx => read (fun s => s.mem ebx) fun cl => if cl = 0 then .done else putCharCode cl (putStrCode fuel (ebx + 1))

def based4bitsCode (buf : BitVec 32) : Nat → BitVec 32 → BitVec 32 → BitVec 32 → (BitVec 32 → PrintCode) → PrintCode
  | 0, _, _, edi, k => k edi
  | ecx + 1, eax, edx, edi, k =>
    let edx := edx &&& 0x0000000f
    write (Screen.write8 (buf + edi).toNat (digitChar edx)) <|
    let edi := edi - 1
    let eax := eax >>> 4
    let edx := eax
    based4bitsCode buf ecx eax edx edi k

def skipPrefix0Code (buf : BitVec 32) : Nat → BitVec 32 → (BitVec 32 → BitVec 8 → PrintCode) → PrintCode
  | 0, _, _ => divergeCode
  | fuel + 1, edi, k =>
    if edi = 8 then k edi 0x30
    else read (fun s => s.mem (buf + edi).toNat) fun cl =>
      let edi := edi + 1
      if cl = 0x30 then skipPrefix0Code buf fuel edi k else k (edi - 1) cl

def putEachNumCode (buf : BitVec 32) : Nat → BitVec 32 → BitVec 8 → PrintCode
  | 0, _, _ => divergeCode
  | fuel + 1, edi, cl => putCharCode cl <|
    let edi := edi + 1
    read (fun s => s.mem (buf + edi).toNat) fun cl => if edi.slt 8 then putEachNumCode buf fuel edi cl else .done

def putIntCode (buf : BitVec 32) (fuel : Nat) (eax : BitVec 32) : PrintCode :=
  based4bitsCode buf 8 eax eax 7 fun edi => skipPrefix0Code buf fuel (edi + 1) fun edi cl => putEachNumCode buf fuel edi cl

/-! ## With nobody in between -/

variable {s : Screen} {k : PrintCode}

theorem run_getCursorCode (k : BitVec 16 → PrintCode) (s : Screen) :
    (getCursorCode k).run s = (k (getCursor s).1).run (getCursor s).2 := rfl

@[simp] theorem run_setCursorCode (bx : BitVec 16) (k : PrintCode) (s : Screen) :
    (setCursorCode bx k).run s = k.run (setCursor bx s) := rfl

theorem run_movsdCode (ecx esi edi : Nat) (k : PrintCode) (s : Screen) :
    (movsdCode ecx esi edi k).run s = k.run (movsd ecx esi edi s) := by
  induction ecx generalizing esi edi s with
  | zero => rfl
  | succ ecx ih => rw [movsdCode, run_write, ih, movsd]

theorem run_clsCode (ecx ebx : Nat) (k : PrintCode) (s : Screen) :
    (clsCode ecx ebx k).run s = (do let s ← cls ecx ebx s; k.run s) := by
  induction ecx generalizing ebx s with
  | zero => rfl
  | succ ecx ih =>
    rw [clsCode, run_attempt, cls, bind_assoc]
    exact congrArg _ (funext fun s => ih (ebx + 2) s)

theorem run_rollScreenCode (k : PrintCode) (s : Screen) : (rollScreenCode k).run s = (do let s ← rollScreen s; k.run s) := by
  rw [rollScreenCode, run_movsdCode, run_clsCode, rollScreen]

theorem run_lineFeedCode (bx : BitVec 16) (k : PrintCode) (s : Screen) :
    (lineFeedCode bx k).run s = (do let s ← lineFeed bx s; k.run s) := by
  unfold lineFeedCode lineFeed
  simp only
  split
  · rw [run_setCursorCode, ok_bind]
  · simp only [run_rollScreenCode, run_setCursorCode, bind_assoc, ok_bind]

theorem run_backspaceCode (bx : BitVec 16) (k : PrintCode) (s : Screen) :
    (backspaceCode bx k).run s = (do let s ← backspace bx s; k.run s) := by
  simp only [backspaceCode, backspace, run_attempt, run_setCursorCode, bind_assoc, ok_bind]

theorem run_putOtherCode (cl : BitVec 8) (bx : BitVec 16) (k : PrintCode) (s : Screen) :
    (putOtherCode cl bx k).run s = (do let s ← putOther cl bx s; k.run s) := by
  unfold putOtherCode putOther
  simp only [run_attempt, bind_assoc]
  split
  · simp only [run_setCursorCode, ok_bind]
  · simp only [run_lineFeedCode]

theorem run_putCharCode (cl : BitVec 8) (k : PrintCode) (s : Screen) :
    (putCharCode cl k).run s = (do let s ← putChar cl s; k.run s) := by
  unfold putCharCode putChar
  rw [run_getCursorCode]
  generalize getCursor s = c
  obtain ⟨bx, s⟩ := c
  simp only
  split
  · exact run_lineFeedCode bx k s
  · split
    · exact run_lineFeedCode bx k s
    · split
      · exact run_backspaceCode bx k s
      · exact run_putOtherCode cl bx k s

theorem run_putStrCode (fuel ebx : Nat) (s : Screen) : (putStrCode fuel ebx).run s = putStr fuel ebx s := by
  induction fuel generalizing ebx s with
  | zero => rfl
  | succ fuel ih =>
    rw [putStrCode, run_read, putStr]
    split
    · rfl
    · rw [run_putCharCode]
      exact congrArg _ (funext fun s => ih (ebx + 1) s)

theorem run_based4bitsCode (buf : BitVec 32) (ecx : Nat) (eax edx edi : BitVec 32) (k : BitVec 32 → PrintCode) (s : Screen) :
    (based4bitsCode buf ecx eax edx edi k).run s =
      (k (based4bits buf ecx eax edx edi s).1).run (based4bits buf ecx eax edx edi s).2 := by
  induction ecx generalizing eax edx edi s with
  | zero => rfl
  | succ ecx ih =>
    rw [based4bitsCode, run_write, ih]
    rfl

theorem run_skipPrefix0Code (buf : BitVec 32) (fuel : Nat) (edi : BitVec 32) (k : BitVec 32 → BitVec 8 → PrintCode)
    (s : Screen) :
    (skipPrefix0Code buf fuel edi k).run s = (do let (edi, cl) ← skipPrefix0 buf s fuel edi; (k edi cl).run s) := by
  induction fuel generalizing edi with
  | zero => rfl
  | succ fuel ih =>
    unfold skipPrefix0Code skipPrefix0
    split
    · rfl
    · rw [run_read]
      simp only
      split
      · exact ih (edi + 1)
      · rfl

theorem run_putEachNumCode (buf : BitVec 32) (fuel : Nat) (edi : BitVec 32) (cl : BitVec 8) (s : Screen) :
    (putEachNumCode buf fuel edi cl).run s = putEachNum buf fuel edi cl s := by
  induction fuel generalizing edi cl s with
  | zero => rfl
  | succ fuel ih =>
    rw [putEachNumCode, run_putCharCode]
    refine congrArg _ (funext fun s => ?_)
    simp only [run_read]
    split
    · exact ih (edi + 1) _ s
    · rfl

theorem run_putIntCode (buf : BitVec 32) (fuel : Nat) (eax : BitVec 32) (s : Screen) :
    (putIntCode buf fuel eax).run s = putInt buf fuel eax s := by
  rw [putIntCode, run_based4bitsCode, run_skipPrefix0Code]
  simp only [run_putEachNumCode]
  rfl

end TinyOs.Lib
