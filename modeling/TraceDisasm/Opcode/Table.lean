import TraceDisasm.Opcode.Basic

/-!
# The decode tables of the S1C88

The instruction set as three tables of 256 entries: one for the first byte of an instruction, and one for the
second byte behind each of the two extension bytes `CE` and `CF`. Operand bytes follow the opcode in the order of
the arguments. `lookup` finds the operation at the front of a list of bytes and the number of bytes that its opcode
takes.
-/

namespace TraceDisasm.Opcode

/-! ## Shorthands for the entries -/

/-- A register argument. -/
def r (register : Register) : Argument := .register register

/-- An argument in brackets. -/
def ind (register : Register) : Argument := .indirect register

/-- An argument in brackets, indexed by `L`. -/
def plusL (register : Register) : Argument := .indexedByL register

/-- An argument in brackets, with a displacement. -/
def plus (register : Register) : Argument := .displaced register

/-- A first byte that is a whole opcode. -/
def op (mnemonic : Mnemonic) (arguments : List Argument) : Slot := .operation ⟨mnemonic, none, arguments⟩

/-- A first byte that is the opcode of a conditional branch. -/
def cond (mnemonic : Mnemonic) (condition : Condition) (arguments : List Argument) : Slot :=
  .operation ⟨mnemonic, some condition, arguments⟩

/-- A first byte without meaning. -/
def undefined : Slot := .undefined

/-- A second byte behind an extension byte. -/
def ext (mnemonic : Mnemonic) (arguments : List Argument) : Option Operation := some ⟨mnemonic, none, arguments⟩

/-- A second byte behind an extension byte, for a conditional branch. -/
def extCond (mnemonic : Mnemonic) (condition : Condition) (arguments : List Argument) : Option Operation :=
  some ⟨mnemonic, some condition, arguments⟩

/-! ## The tables -/

/-- A table of 256 entries in rows of sixteen: the high half of a byte selects the row, the low half the column. -/
abbrev Map (α : Type) := Vector (Vector α 16) 16

/-- The entry of a byte. -/
def Map.entry {α : Type} (map : Map α) (byte : UInt8) : α :=
  (map.get ⟨byte.toNat / 16, by have := byte.toNat_lt; omega⟩).get ⟨byte.toNat % 16, by omega⟩

/-- The meaning of the first byte. -/
def primary : Map Slot := #v[
  -- 00–0F
  #v[op .add [r .a, r .a], op .add [r .a, r .b], op .add [r .a, .immediate8], op .add [r .a, ind .hl],
    op .add [r .a, .brPage], op .add [r .a, .absolute], op .add [r .a, ind .ix], op .add [r .a, ind .iy],
    op .adc [r .a, r .a], op .adc [r .a, r .b], op .adc [r .a, .immediate8], op .adc [r .a, ind .hl],
    op .adc [r .a, .brPage], op .adc [r .a, .absolute], op .adc [r .a, ind .ix], op .adc [r .a, ind .iy]],
  -- 10–1F
  #v[op .sub [r .a, r .a], op .sub [r .a, r .b], op .sub [r .a, .immediate8], op .sub [r .a, ind .hl],
    op .sub [r .a, .brPage], op .sub [r .a, .absolute], op .sub [r .a, ind .ix], op .sub [r .a, ind .iy],
    op .sbc [r .a, r .a], op .sbc [r .a, r .b], op .sbc [r .a, .immediate8], op .sbc [r .a, ind .hl],
    op .sbc [r .a, .brPage], op .sbc [r .a, .absolute], op .sbc [r .a, ind .ix], op .sbc [r .a, ind .iy]],
  -- 20–2F
  #v[op .and [r .a, r .a], op .and [r .a, r .b], op .and [r .a, .immediate8], op .and [r .a, ind .hl],
    op .and [r .a, .brPage], op .and [r .a, .absolute], op .and [r .a, ind .ix], op .and [r .a, ind .iy],
    op .or [r .a, r .a], op .or [r .a, r .b], op .or [r .a, .immediate8], op .or [r .a, ind .hl],
    op .or [r .a, .brPage], op .or [r .a, .absolute], op .or [r .a, ind .ix], op .or [r .a, ind .iy]],
  -- 30–3F
  #v[op .cp [r .a, r .a], op .cp [r .a, r .b], op .cp [r .a, .immediate8], op .cp [r .a, ind .hl],
    op .cp [r .a, .brPage], op .cp [r .a, .absolute], op .cp [r .a, ind .ix], op .cp [r .a, ind .iy],
    op .xor [r .a, r .a], op .xor [r .a, r .b], op .xor [r .a, .immediate8], op .xor [r .a, ind .hl],
    op .xor [r .a, .brPage], op .xor [r .a, .absolute], op .xor [r .a, ind .ix], op .xor [r .a, ind .iy]],
  -- 40–4F
  #v[op .ld [r .a, r .a], op .ld [r .a, r .b], op .ld [r .a, r .l], op .ld [r .a, r .h], op .ld [r .a, .brPage],
    op .ld [r .a, ind .hl], op .ld [r .a, ind .ix], op .ld [r .a, ind .iy], op .ld [r .b, r .a],
    op .ld [r .b, r .b], op .ld [r .b, r .l], op .ld [r .b, r .h], op .ld [r .b, .brPage], op .ld [r .b, ind .hl],
    op .ld [r .b, ind .ix], op .ld [r .b, ind .iy]],
  -- 50–5F
  #v[op .ld [r .l, r .a], op .ld [r .l, r .b], op .ld [r .l, r .l], op .ld [r .l, r .h], op .ld [r .l, .brPage],
    op .ld [r .l, ind .hl], op .ld [r .l, ind .ix], op .ld [r .l, ind .iy], op .ld [r .h, r .a],
    op .ld [r .h, r .b], op .ld [r .h, r .l], op .ld [r .h, r .h], op .ld [r .h, .brPage], op .ld [r .h, ind .hl],
    op .ld [r .h, ind .ix], op .ld [r .h, ind .iy]],
  -- 60–6F
  #v[op .ld [ind .ix, r .a], op .ld [ind .ix, r .b], op .ld [ind .ix, r .l], op .ld [ind .ix, r .h],
    op .ld [ind .ix, .brPage], op .ld [ind .ix, ind .hl], op .ld [ind .ix, ind .ix], op .ld [ind .ix, ind .iy],
    op .ld [ind .hl, r .a], op .ld [ind .hl, r .b], op .ld [ind .hl, r .l], op .ld [ind .hl, r .h],
    op .ld [ind .hl, .brPage], op .ld [ind .hl, ind .hl], op .ld [ind .hl, ind .ix], op .ld [ind .hl, ind .iy]],
  -- 70–7F
  #v[op .ld [ind .iy, r .a], op .ld [ind .iy, r .b], op .ld [ind .iy, r .l], op .ld [ind .iy, r .h],
    op .ld [ind .iy, .brPage], op .ld [ind .iy, ind .hl], op .ld [ind .iy, ind .ix], op .ld [ind .iy, ind .iy],
    op .ld [.brPage, r .a], op .ld [.brPage, r .b], op .ld [.brPage, r .l], op .ld [.brPage, r .h],
    op .ld [.brPage, .brPage], op .ld [.brPage, ind .hl], op .ld [.brPage, ind .ix], op .ld [.brPage, ind .iy]],
  -- 80–8F
  #v[op .inc [r .a], op .inc [r .b], op .inc [r .l], op .inc [r .h], op .inc [r .br], op .inc [.brPage],
    op .inc [ind .hl], op .inc [r .sp], op .dec [r .a], op .dec [r .b], op .dec [r .l], op .dec [r .h],
    op .dec [r .br], op .dec [.brPage], op .dec [ind .hl], op .dec [r .sp]],
  -- 90–9F
  #v[op .inc [r .ba], op .inc [r .hl], op .inc [r .ix], op .inc [r .iy], op .bit [r .a, r .b],
    op .bit [ind .hl, .immediate8], op .bit [r .a, .immediate8], op .bit [r .b, .immediate8], op .dec [r .ba],
    op .dec [r .hl], op .dec [r .ix], op .dec [r .iy], op .and [r .sc, .immediate8], op .or [r .sc, .immediate8],
    op .xor [r .sc, .immediate8], op .ld [r .sc, .immediate8]],
  -- A0–AF
  #v[op .push [r .ba], op .push [r .hl], op .push [r .ix], op .push [r .iy], op .push [r .br], op .push [r .ep],
    op .push [r .ip], op .push [r .sc], op .pop [r .ba], op .pop [r .hl], op .pop [r .ix], op .pop [r .iy],
    op .pop [r .br], op .pop [r .ep], op .pop [r .ip], op .pop [r .sc]],
  -- B0–BF
  #v[op .ld [r .a, .immediate8], op .ld [r .b, .immediate8], op .ld [r .l, .immediate8],
    op .ld [r .h, .immediate8], op .ld [r .br, .immediate8], op .ld [ind .hl, .immediate8],
    op .ld [ind .ix, .immediate8], op .ld [ind .iy, .immediate8], op .ld [r .ba, .absolute],
    op .ld [r .hl, .absolute], op .ld [r .ix, .absolute], op .ld [r .iy, .absolute], op .ld [.absolute, r .ba],
    op .ld [.absolute, r .hl], op .ld [.absolute, r .ix], op .ld [.absolute, r .iy]],
  -- C0–CF
  #v[op .add [r .ba, .immediate16], op .add [r .hl, .immediate16], op .add [r .ix, .immediate16],
    op .add [r .iy, .immediate16], op .ld [r .ba, .immediate16], op .ld [r .hl, .immediate16],
    op .ld [r .ix, .immediate16], op .ld [r .iy, .immediate16], op .ex [r .ba, r .hl], op .ex [r .ba, r .ix],
    op .ex [r .ba, r .iy], op .ex [r .ba, r .sp], op .ex [r .a, r .b], op .ex [r .a, ind .hl], .extension .ce,
    .extension .cf],
  -- D0–DF
  #v[op .sub [r .ba, .immediate16], op .sub [r .hl, .immediate16], op .sub [r .ix, .immediate16],
    op .sub [r .iy, .immediate16], op .cp [r .ba, .immediate16], op .cp [r .hl, .immediate16],
    op .cp [r .ix, .immediate16], op .cp [r .iy, .immediate16], op .and [.brPage, .immediate8],
    op .or [.brPage, .immediate8], op .xor [.brPage, .immediate8], op .cp [.brPage, .immediate8],
    op .bit [.brPage, .immediate8], op .ld [.brPage, .immediate8], op .pack [], op .upck []],
  -- E0–EF
  #v[cond .cars .carry [.relative8], cond .cars .notCarry [.relative8], cond .cars .zero [.relative8],
    cond .cars .notZero [.relative8], cond .jrs .carry [.relative8], cond .jrs .notCarry [.relative8],
    cond .jrs .zero [.relative8], cond .jrs .notZero [.relative8], cond .carl .carry [.relative16],
    cond .carl .notCarry [.relative16], cond .carl .zero [.relative16], cond .carl .notZero [.relative16],
    cond .jrl .carry [.relative16], cond .jrl .notCarry [.relative16], cond .jrl .zero [.relative16],
    cond .jrl .notZero [.relative16]],
  -- F0–FF
  #v[op .cars [.relative8], op .jrs [.relative8], op .carl [.relative16], op .jrl [.relative16], op .jp [r .hl],
    cond .djr .notZero [.relative8], op .swap [r .a], op .swap [ind .hl], op .ret [], op .rete [], op .rets [],
    op .call [.absolute], op .int [.vector], op .jp [.vector], undefined, op .nop []]]

/-- The meaning of the byte behind `CE`. -/
def secondCE : Map (Option Operation) := #v[
  -- 00–0F
  #v[ext .add [r .a, plus .ix], ext .add [r .a, plus .iy], ext .add [r .a, plusL .ix], ext .add [r .a, plusL .iy],
    ext .add [ind .hl, r .a], ext .add [ind .hl, .immediate8], ext .add [ind .hl, ind .ix],
    ext .add [ind .hl, ind .iy], ext .adc [r .a, plus .ix], ext .adc [r .a, plus .iy], ext .adc [r .a, plusL .ix],
    ext .adc [r .a, plusL .iy], ext .adc [ind .hl, r .a], ext .adc [ind .hl, .immediate8],
    ext .adc [ind .hl, ind .ix], ext .adc [ind .hl, ind .iy]],
  -- 10–1F
  #v[ext .sub [r .a, plus .ix], ext .sub [r .a, plus .iy], ext .sub [r .a, plusL .ix], ext .sub [r .a, plusL .iy],
    ext .sub [ind .hl, r .a], ext .sub [ind .hl, .immediate8], ext .sub [ind .hl, ind .ix],
    ext .sub [ind .hl, ind .iy], ext .sbc [r .a, plus .ix], ext .sbc [r .a, plus .iy], ext .sbc [r .a, plusL .ix],
    ext .sbc [r .a, plusL .iy], ext .sbc [ind .hl, r .a], ext .sbc [ind .hl, .immediate8],
    ext .sbc [ind .hl, ind .ix], ext .sbc [ind .hl, ind .iy]],
  -- 20–2F
  #v[ext .and [r .a, plus .ix], ext .and [r .a, plus .iy], ext .and [r .a, plusL .ix], ext .and [r .a, plusL .iy],
    ext .and [ind .hl, r .a], ext .and [ind .hl, .immediate8], ext .and [ind .hl, ind .ix],
    ext .and [ind .hl, ind .iy], ext .or [r .a, plus .ix], ext .or [r .a, plus .iy], ext .or [r .a, plusL .ix],
    ext .or [r .a, plusL .iy], ext .or [ind .hl, r .a], ext .or [ind .hl, .immediate8], ext .or [ind .hl, ind .ix],
    ext .or [ind .hl, ind .iy]],
  -- 30–3F
  #v[ext .cp [r .a, plus .ix], ext .cp [r .a, plus .iy], ext .cp [r .a, plusL .ix], ext .cp [r .a, plusL .iy],
    ext .cp [ind .hl, r .a], ext .cp [ind .hl, .immediate8], ext .cp [ind .hl, ind .ix],
    ext .cp [ind .hl, ind .iy], ext .xor [r .a, plus .ix], ext .xor [r .a, plus .iy], ext .xor [r .a, plusL .ix],
    ext .xor [r .a, plusL .iy], ext .xor [ind .hl, r .a], ext .xor [ind .hl, .immediate8],
    ext .xor [ind .hl, ind .ix], ext .xor [ind .hl, ind .iy]],
  -- 40–4F
  #v[ext .ld [r .a, plus .ix], ext .ld [r .a, plus .iy], ext .ld [r .a, plusL .ix], ext .ld [r .a, plusL .iy],
    ext .ld [plus .ix, r .a], ext .ld [plus .iy, r .a], ext .ld [plusL .ix, r .a], ext .ld [plusL .iy, r .a],
    ext .ld [r .b, plus .ix], ext .ld [r .b, plus .iy], ext .ld [r .b, plusL .ix], ext .ld [r .b, plusL .iy],
    ext .ld [plus .ix, r .b], ext .ld [plus .iy, r .b], ext .ld [plusL .ix, r .b], ext .ld [plusL .iy, r .b]],
  -- 50–5F
  #v[ext .ld [r .l, plus .ix], ext .ld [r .l, plus .iy], ext .ld [r .l, plusL .ix], ext .ld [r .l, plusL .iy],
    ext .ld [plus .ix, r .l], ext .ld [plus .iy, r .l], ext .ld [plusL .ix, r .l], ext .ld [plusL .iy, r .l],
    ext .ld [r .h, plus .ix], ext .ld [r .h, plus .iy], ext .ld [r .h, plusL .ix], ext .ld [r .h, plusL .iy],
    ext .ld [plus .ix, r .h], ext .ld [plus .iy, r .h], ext .ld [plusL .ix, r .h], ext .ld [plusL .iy, r .h]],
  -- 60–6F
  #v[ext .ld [ind .hl, plus .ix], ext .ld [ind .hl, plus .iy], ext .ld [ind .hl, plusL .ix],
    ext .ld [ind .hl, plusL .iy], none, none, none, none, ext .ld [ind .ix, plus .ix], ext .ld [ind .ix, plus .iy],
    ext .ld [ind .ix, plusL .ix], ext .ld [ind .ix, plusL .iy], none, none, none, none],
  -- 70–7F
  #v[ext .ld [ind .iy, plus .ix], ext .ld [ind .iy, plus .iy], ext .ld [ind .iy, plusL .ix],
    ext .ld [ind .iy, plusL .iy], none, none, none, none, none, none, none, none, none, none, none, none],
  -- 80–8F
  #v[ext .sla [r .a], ext .sla [r .b], ext .sla [.brPage], ext .sla [ind .hl], ext .sll [r .a], ext .sll [r .b],
    ext .sll [.brPage], ext .sll [ind .hl], ext .sra [r .a], ext .sra [r .b], ext .sra [.brPage],
    ext .sra [ind .hl], ext .srl [r .a], ext .srl [r .b], ext .srl [.brPage], ext .srl [ind .hl]],
  -- 90–9F
  #v[ext .rl [r .a], ext .rl [r .b], ext .rl [.brPage], ext .rl [ind .hl], ext .rlc [r .a], ext .rlc [r .b],
    ext .rlc [.brPage], ext .rlc [ind .hl], ext .rr [r .a], ext .rr [r .b], ext .rr [.brPage], ext .rr [ind .hl],
    ext .rrc [r .a], ext .rrc [r .b], ext .rrc [.brPage], ext .rrc [ind .hl]],
  -- A0–AF
  #v[ext .cpl [r .a], ext .cpl [r .b], ext .cpl [.brPage], ext .cpl [ind .hl], ext .neg [r .a], ext .neg [r .b],
    ext .neg [.brPage], ext .neg [ind .hl], ext .sep [], none, none, none, none, none, none, none],
  -- B0–BF
  #v[ext .and [r .b, .immediate8], ext .and [r .l, .immediate8], ext .and [r .h, .immediate8], none,
    ext .or [r .b, .immediate8], ext .or [r .l, .immediate8], ext .or [r .h, .immediate8], none,
    ext .xor [r .b, .immediate8], ext .xor [r .l, .immediate8], ext .xor [r .h, .immediate8], none,
    ext .cp [r .b, .immediate8], ext .cp [r .l, .immediate8], ext .cp [r .h, .immediate8],
    ext .cp [r .br, .immediate8]],
  -- C0–CF
  #v[ext .ld [r .a, r .br], ext .ld [r .a, r .sc], ext .ld [r .br, r .a], ext .ld [r .sc, r .a],
    ext .ld [r .nb, .immediate8], ext .ld [r .ep, .immediate8], ext .ld [r .xp, .immediate8],
    ext .ld [r .yp, .immediate8], ext .ld [r .a, r .nb], ext .ld [r .a, r .ep], ext .ld [r .a, r .xp],
    ext .ld [r .a, r .yp], ext .ld [r .nb, r .a], ext .ld [r .ep, r .a], ext .ld [r .xp, r .a],
    ext .ld [r .yp, r .a]],
  -- D0–DF
  #v[ext .ld [r .a, .absolute], ext .ld [r .b, .absolute], ext .ld [r .l, .absolute], ext .ld [r .h, .absolute],
    ext .ld [.absolute, r .a], ext .ld [.absolute, r .b], ext .ld [.absolute, r .l], ext .ld [.absolute, r .h],
    ext .mlt [], ext .div [], none, none, none, none, none, none],
  -- E0–EF
  #v[extCond .jrs .less [.relative8], extCond .jrs .lessEqual [.relative8], extCond .jrs .greater [.relative8],
    extCond .jrs .greaterEqual [.relative8], extCond .jrs .overflow [.relative8],
    extCond .jrs .notOverflow [.relative8], extCond .jrs .positive [.relative8], extCond .jrs .minus [.relative8],
    extCond .jrs .flag0 [.relative8], extCond .jrs .flag1 [.relative8], extCond .jrs .flag2 [.relative8],
    extCond .jrs .flag3 [.relative8], extCond .jrs .notFlag0 [.relative8], extCond .jrs .notFlag1 [.relative8],
    extCond .jrs .notFlag2 [.relative8], extCond .jrs .notFlag3 [.relative8]],
  -- F0–FF
  #v[extCond .cars .less [.relative8], extCond .cars .lessEqual [.relative8], extCond .cars .greater [.relative8],
    extCond .cars .greaterEqual [.relative8], extCond .cars .overflow [.relative8],
    extCond .cars .notOverflow [.relative8], extCond .cars .positive [.relative8],
    extCond .cars .minus [.relative8], extCond .cars .flag0 [.relative8], extCond .cars .flag1 [.relative8],
    extCond .cars .flag2 [.relative8], extCond .cars .flag3 [.relative8], extCond .cars .notFlag0 [.relative8],
    extCond .cars .notFlag1 [.relative8], extCond .cars .notFlag2 [.relative8],
    extCond .cars .notFlag3 [.relative8]]]

/-- The meaning of the byte behind `CF`. -/
def secondCF : Map (Option Operation) := #v[
  -- 00–0F
  #v[ext .add [r .ba, r .ba], ext .add [r .ba, r .hl], ext .add [r .ba, r .ix], ext .add [r .ba, r .iy],
    ext .adc [r .ba, r .ba], ext .adc [r .ba, r .hl], ext .adc [r .ba, r .ix], ext .adc [r .ba, r .iy],
    ext .sub [r .ba, r .ba], ext .sub [r .ba, r .hl], ext .sub [r .ba, r .ix], ext .sub [r .ba, r .iy],
    ext .sbc [r .ba, r .ba], ext .sbc [r .ba, r .hl], ext .sbc [r .ba, r .ix], ext .sbc [r .ba, r .iy]],
  -- 10–1F
  #v[none, none, none, none, none, none, none, none, ext .cp [r .ba, r .ba], ext .cp [r .ba, r .hl],
    ext .cp [r .ba, r .ix], ext .cp [r .ba, r .iy], none, none, none, none],
  -- 20–2F
  #v[ext .add [r .hl, r .ba], ext .add [r .hl, r .hl], ext .add [r .hl, r .ix], ext .add [r .hl, r .iy],
    ext .adc [r .hl, r .ba], ext .adc [r .hl, r .hl], ext .adc [r .hl, r .ix], ext .adc [r .hl, r .iy],
    ext .sub [r .hl, r .ba], ext .sub [r .hl, r .hl], ext .sub [r .hl, r .ix], ext .sub [r .hl, r .iy],
    ext .sbc [r .hl, r .ba], ext .sbc [r .hl, r .hl], ext .sbc [r .hl, r .ix], ext .sbc [r .hl, r .iy]],
  -- 30–3F
  #v[none, none, none, none, none, none, none, none, ext .cp [r .hl, r .ba], ext .cp [r .hl, r .hl],
    ext .cp [r .hl, r .ix], ext .cp [r .hl, r .iy], none, none, none, none],
  -- 40–4F
  #v[ext .add [r .ix, r .ba], ext .add [r .ix, r .hl], ext .add [r .iy, r .ba], ext .add [r .iy, r .hl],
    ext .add [r .sp, r .ba], ext .add [r .sp, r .hl], none, none, ext .sub [r .ix, r .ba], ext .sub [r .ix, r .hl],
    ext .sub [r .iy, r .ba], ext .sub [r .iy, r .hl], ext .sub [r .sp, r .ba], ext .sub [r .sp, r .hl], none, none],
  -- 50–5F
  #v[none, none, none, none, none, none, none, none, none, none, none, none, ext .cp [r .sp, r .ba],
    ext .cp [r .sp, r .hl], none, none],
  -- 60–6F
  #v[ext .adc [r .ba, .immediate16], ext .adc [r .hl, .immediate16], ext .sbc [r .ba, .immediate16],
    ext .sbc [r .hl, .immediate16], none, none, none, none, ext .add [r .sp, .immediate16], none,
    ext .sub [r .sp, .immediate16], none, ext .cp [r .sp, .immediate16], none, ext .ld [r .sp, .immediate16], none],
  -- 70–7F
  #v[ext .ld [r .ba, plus .sp], ext .ld [r .hl, plus .sp], ext .ld [r .ix, plus .sp], ext .ld [r .iy, plus .sp],
    ext .ld [plus .sp, r .ba], ext .ld [plus .sp, r .hl], ext .ld [plus .sp, r .ix], ext .ld [plus .sp, r .iy],
    ext .ld [r .sp, .absolute], none, none, none, ext .ld [.absolute, r .sp], none, none, none],
  -- 80–8F
  #v[none, none, none, none, none, none, none, none, none, none, none, none, none, none, none, none],
  -- 90–9F
  #v[none, none, none, none, none, none, none, none, none, none, none, none, none, none, none, none],
  -- A0–AF
  #v[none, none, none, none, none, none, none, none, none, none, none, none, none, none, none, none],
  -- B0–BF
  #v[ext .push [r .a], ext .push [r .b], ext .push [r .l], ext .push [r .h], ext .pop [r .a], ext .pop [r .b],
    ext .pop [r .l], ext .pop [r .h], ext .push [r .all], ext .push [r .ale], none, none, ext .pop [r .all],
    ext .pop [r .ale], none, none],
  -- C0–CF
  #v[ext .ld [r .ba, ind .hl], ext .ld [r .hl, ind .hl], ext .ld [r .ix, ind .hl], ext .ld [r .iy, ind .hl],
    ext .ld [ind .hl, r .ba], ext .ld [ind .hl, r .hl], ext .ld [ind .hl, r .ix], ext .ld [ind .hl, r .iy], none,
    none, none, none, none, none, none, none],
  -- D0–DF
  #v[ext .ld [r .ba, ind .ix], ext .ld [r .hl, ind .ix], ext .ld [r .ix, ind .ix], ext .ld [r .iy, ind .ix],
    ext .ld [ind .ix, r .ba], ext .ld [ind .ix, r .hl], ext .ld [ind .ix, r .ix], ext .ld [ind .ix, r .iy],
    ext .ld [r .ba, ind .iy], ext .ld [r .hl, ind .iy], ext .ld [r .ix, ind .iy], ext .ld [r .iy, ind .iy],
    ext .ld [ind .iy, r .ba], ext .ld [ind .iy, r .hl], ext .ld [ind .iy, r .ix], ext .ld [ind .iy, r .iy]],
  -- E0–EF
  #v[ext .ld [r .ba, r .ba], ext .ld [r .ba, r .hl], ext .ld [r .ba, r .ix], ext .ld [r .ba, r .iy],
    ext .ld [r .hl, r .ba], ext .ld [r .hl, r .hl], ext .ld [r .hl, r .ix], ext .ld [r .hl, r .iy],
    ext .ld [r .ix, r .ba], ext .ld [r .ix, r .hl], ext .ld [r .ix, r .ix], ext .ld [r .ix, r .iy],
    ext .ld [r .iy, r .ba], ext .ld [r .iy, r .hl], ext .ld [r .iy, r .ix], ext .ld [r .iy, r .iy]],
  -- F0–FF
  #v[ext .ld [r .sp, r .ba], ext .ld [r .sp, r .hl], ext .ld [r .sp, r .ix], ext .ld [r .sp, r .iy],
    ext .ld [r .hl, r .sp], ext .ld [r .hl, r .pc], none, none, ext .ld [r .ba, r .sp], ext .ld [r .ba, r .pc],
    ext .ld [r .ix, r .sp], none, none, none, ext .ld [r .iy, r .sp], none]]

end TraceDisasm.Opcode

namespace TraceDisasm

/-- The meaning of the first byte of an instruction. -/
def Slot.ofByte (byte : UInt8) : Slot :=
  Opcode.primary.entry byte

/-- The operation that an extension byte and the byte behind it stand for. -/
def Extension.operation? (extension : Extension) (byte : UInt8) : Option Operation :=
  match extension with
  | .ce => Opcode.secondCE.entry byte
  | .cf => Opcode.secondCF.entry byte

/-- The operation at the front of a list of bytes, with the length of its opcode. There is none if the bytes end
inside the opcode or lead to an undefined entry. -/
def Opcode.lookup : List UInt8 → Option (Nat × Operation)
  | [] => none
  | first :: rest =>
    match Slot.ofByte first with
    | .undefined => none
    | .operation operation => some (1, operation)
    | .extension extension =>
      match rest with
      | [] => none
      | second :: _ => (extension.operation? second).map ((2, ·))

example : Opcode.lookup [0xCE, 0xC4, 0x05] = some (2, ⟨.ld, none, [.register .nb, .immediate8]⟩) := by decide

end TraceDisasm
