import Unstack.Opcode

/-!
# The opcode table

Every opcode of ECMA-335 (6th edition), in the order of their encoded values, and the two ways
of finding one: by value, as a decoder does, and by mnemonic, as an assembler does.
-/

namespace Unstack.Opcode

/-- All 219 opcodes: mnemonic, value, flow control, slots taken, slots left, operand type. -/
def table : List Opcode :=
  [
    ⟨"nop", 0x00, .next, .pop0, .push0, .inlineNone⟩,
    ⟨"break", 0x01, .breakpoint, .pop0, .push0, .inlineNone⟩,
    ⟨"ldarg.0", 0x02, .next, .pop0, .push1, .inlineNone⟩,
    ⟨"ldarg.1", 0x03, .next, .pop0, .push1, .inlineNone⟩,
    ⟨"ldarg.2", 0x04, .next, .pop0, .push1, .inlineNone⟩,
    ⟨"ldarg.3", 0x05, .next, .pop0, .push1, .inlineNone⟩,
    ⟨"ldloc.0", 0x06, .next, .pop0, .push1, .inlineNone⟩,
    ⟨"ldloc.1", 0x07, .next, .pop0, .push1, .inlineNone⟩,
    ⟨"ldloc.2", 0x08, .next, .pop0, .push1, .inlineNone⟩,
    ⟨"ldloc.3", 0x09, .next, .pop0, .push1, .inlineNone⟩,
    ⟨"stloc.0", 0x0A, .next, .pop1, .push0, .inlineNone⟩,
    ⟨"stloc.1", 0x0B, .next, .pop1, .push0, .inlineNone⟩,
    ⟨"stloc.2", 0x0C, .next, .pop1, .push0, .inlineNone⟩,
    ⟨"stloc.3", 0x0D, .next, .pop1, .push0, .inlineNone⟩,
    ⟨"ldarg.s", 0x0E, .next, .pop0, .push1, .shortInlineArg⟩,
    ⟨"ldarga.s", 0x0F, .next, .pop0, .push1, .shortInlineArg⟩,
    ⟨"starg.s", 0x10, .next, .pop1, .push0, .shortInlineArg⟩,
    ⟨"ldloc.s", 0x11, .next, .pop0, .push1, .shortInlineVar⟩,
    ⟨"ldloca.s", 0x12, .next, .pop0, .push1, .shortInlineVar⟩,
    ⟨"stloc.s", 0x13, .next, .pop1, .push0, .shortInlineVar⟩,
    ⟨"ldnull", 0x14, .next, .pop0, .push1, .inlineNone⟩,
    ⟨"ldc.i4.m1", 0x15, .next, .pop0, .push1, .inlineNone⟩,
    ⟨"ldc.i4.0", 0x16, .next, .pop0, .push1, .inlineNone⟩,
    ⟨"ldc.i4.1", 0x17, .next, .pop0, .push1, .inlineNone⟩,
    ⟨"ldc.i4.2", 0x18, .next, .pop0, .push1, .inlineNone⟩,
    ⟨"ldc.i4.3", 0x19, .next, .pop0, .push1, .inlineNone⟩,
    ⟨"ldc.i4.4", 0x1A, .next, .pop0, .push1, .inlineNone⟩,
    ⟨"ldc.i4.5", 0x1B, .next, .pop0, .push1, .inlineNone⟩,
    ⟨"ldc.i4.6", 0x1C, .next, .pop0, .push1, .inlineNone⟩,
    ⟨"ldc.i4.7", 0x1D, .next, .pop0, .push1, .inlineNone⟩,
    ⟨"ldc.i4.8", 0x1E, .next, .pop0, .push1, .inlineNone⟩,
    ⟨"ldc.i4.s", 0x1F, .next, .pop0, .push1, .shortInlineI⟩,
    ⟨"ldc.i4", 0x20, .next, .pop0, .push1, .inlineI⟩,
    ⟨"ldc.i8", 0x21, .next, .pop0, .push1, .inlineI8⟩,
    ⟨"ldc.r4", 0x22, .next, .pop0, .push1, .shortInlineR⟩,
    ⟨"ldc.r8", 0x23, .next, .pop0, .push1, .inlineR⟩,
    ⟨"dup", 0x25, .next, .pop1, .push2, .inlineNone⟩,
    ⟨"pop", 0x26, .next, .pop1, .push0, .inlineNone⟩,
    ⟨"jmp", 0x27, .call, .pop0, .push0, .inlineMethod⟩,
    ⟨"call", 0x28, .call, .varPop, .varPush, .inlineMethod⟩,
    ⟨"calli", 0x29, .call, .varPop, .varPush, .inlineSig⟩,
    ⟨"ret", 0x2A, .ret, .varPop, .push0, .inlineNone⟩,
    ⟨"br.s", 0x2B, .branch, .pop0, .push0, .shortInlineBrTarget⟩,
    ⟨"brfalse.s", 0x2C, .condBranch, .pop1, .push0, .shortInlineBrTarget⟩,
    ⟨"brtrue.s", 0x2D, .condBranch, .pop1, .push0, .shortInlineBrTarget⟩,
    ⟨"beq.s", 0x2E, .condBranch, .pop2, .push0, .shortInlineBrTarget⟩,
    ⟨"bge.s", 0x2F, .condBranch, .pop2, .push0, .shortInlineBrTarget⟩,
    ⟨"bgt.s", 0x30, .condBranch, .pop2, .push0, .shortInlineBrTarget⟩,
    ⟨"ble.s", 0x31, .condBranch, .pop2, .push0, .shortInlineBrTarget⟩,
    ⟨"blt.s", 0x32, .condBranch, .pop2, .push0, .shortInlineBrTarget⟩,
    ⟨"bne.un.s", 0x33, .condBranch, .pop2, .push0, .shortInlineBrTarget⟩,
    ⟨"bge.un.s", 0x34, .condBranch, .pop2, .push0, .shortInlineBrTarget⟩,
    ⟨"bgt.un.s", 0x35, .condBranch, .pop2, .push0, .shortInlineBrTarget⟩,
    ⟨"ble.un.s", 0x36, .condBranch, .pop2, .push0, .shortInlineBrTarget⟩,
    ⟨"blt.un.s", 0x37, .condBranch, .pop2, .push0, .shortInlineBrTarget⟩,
    ⟨"br", 0x38, .branch, .pop0, .push0, .inlineBrTarget⟩,
    ⟨"brfalse", 0x39, .condBranch, .pop1, .push0, .inlineBrTarget⟩,
    ⟨"brtrue", 0x3A, .condBranch, .pop1, .push0, .inlineBrTarget⟩,
    ⟨"beq", 0x3B, .condBranch, .pop2, .push0, .inlineBrTarget⟩,
    ⟨"bge", 0x3C, .condBranch, .pop2, .push0, .inlineBrTarget⟩,
    ⟨"bgt", 0x3D, .condBranch, .pop2, .push0, .inlineBrTarget⟩,
    ⟨"ble", 0x3E, .condBranch, .pop2, .push0, .inlineBrTarget⟩,
    ⟨"blt", 0x3F, .condBranch, .pop2, .push0, .inlineBrTarget⟩,
    ⟨"bne.un", 0x40, .condBranch, .pop2, .push0, .inlineBrTarget⟩,
    ⟨"bge.un", 0x41, .condBranch, .pop2, .push0, .inlineBrTarget⟩,
    ⟨"bgt.un", 0x42, .condBranch, .pop2, .push0, .inlineBrTarget⟩,
    ⟨"ble.un", 0x43, .condBranch, .pop2, .push0, .inlineBrTarget⟩,
    ⟨"blt.un", 0x44, .condBranch, .pop2, .push0, .inlineBrTarget⟩,
    ⟨"switch", 0x45, .condBranch, .pop1, .push0, .inlineSwitch⟩,
    ⟨"ldind.i1", 0x46, .next, .pop1, .push1, .inlineNone⟩,
    ⟨"ldind.u1", 0x47, .next, .pop1, .push1, .inlineNone⟩,
    ⟨"ldind.i2", 0x48, .next, .pop1, .push1, .inlineNone⟩,
    ⟨"ldind.u2", 0x49, .next, .pop1, .push1, .inlineNone⟩,
    ⟨"ldind.i4", 0x4A, .next, .pop1, .push1, .inlineNone⟩,
    ⟨"ldind.u4", 0x4B, .next, .pop1, .push1, .inlineNone⟩,
    ⟨"ldind.i8", 0x4C, .next, .pop1, .push1, .inlineNone⟩,
    ⟨"ldind.i", 0x4D, .next, .pop1, .push1, .inlineNone⟩,
    ⟨"ldind.r4", 0x4E, .next, .pop1, .push1, .inlineNone⟩,
    ⟨"ldind.r8", 0x4F, .next, .pop1, .push1, .inlineNone⟩,
    ⟨"ldind.ref", 0x50, .next, .pop1, .push1, .inlineNone⟩,
    ⟨"stind.ref", 0x51, .next, .pop2, .push0, .inlineNone⟩,
    ⟨"stind.i1", 0x52, .next, .pop2, .push0, .inlineNone⟩,
    ⟨"stind.i2", 0x53, .next, .pop2, .push0, .inlineNone⟩,
    ⟨"stind.i4", 0x54, .next, .pop2, .push0, .inlineNone⟩,
    ⟨"stind.i8", 0x55, .next, .pop2, .push0, .inlineNone⟩,
    ⟨"stind.r4", 0x56, .next, .pop2, .push0, .inlineNone⟩,
    ⟨"stind.r8", 0x57, .next, .pop2, .push0, .inlineNone⟩,
    ⟨"add", 0x58, .next, .pop2, .push1, .inlineNone⟩,
    ⟨"sub", 0x59, .next, .pop2, .push1, .inlineNone⟩,
    ⟨"mul", 0x5A, .next, .pop2, .push1, .inlineNone⟩,
    ⟨"div", 0x5B, .next, .pop2, .push1, .inlineNone⟩,
    ⟨"div.un", 0x5C, .next, .pop2, .push1, .inlineNone⟩,
    ⟨"rem", 0x5D, .next, .pop2, .push1, .inlineNone⟩,
    ⟨"rem.un", 0x5E, .next, .pop2, .push1, .inlineNone⟩,
    ⟨"and", 0x5F, .next, .pop2, .push1, .inlineNone⟩,
    ⟨"or", 0x60, .next, .pop2, .push1, .inlineNone⟩,
    ⟨"xor", 0x61, .next, .pop2, .push1, .inlineNone⟩,
    ⟨"shl", 0x62, .next, .pop2, .push1, .inlineNone⟩,
    ⟨"shr", 0x63, .next, .pop2, .push1, .inlineNone⟩,
    ⟨"shr.un", 0x64, .next, .pop2, .push1, .inlineNone⟩,
    ⟨"neg", 0x65, .next, .pop1, .push1, .inlineNone⟩,
    ⟨"not", 0x66, .next, .pop1, .push1, .inlineNone⟩,
    ⟨"conv.i1", 0x67, .next, .pop1, .push1, .inlineNone⟩,
    ⟨"conv.i2", 0x68, .next, .pop1, .push1, .inlineNone⟩,
    ⟨"conv.i4", 0x69, .next, .pop1, .push1, .inlineNone⟩,
    ⟨"conv.i8", 0x6A, .next, .pop1, .push1, .inlineNone⟩,
    ⟨"conv.r4", 0x6B, .next, .pop1, .push1, .inlineNone⟩,
    ⟨"conv.r8", 0x6C, .next, .pop1, .push1, .inlineNone⟩,
    ⟨"conv.u4", 0x6D, .next, .pop1, .push1, .inlineNone⟩,
    ⟨"conv.u8", 0x6E, .next, .pop1, .push1, .inlineNone⟩,
    ⟨"callvirt", 0x6F, .call, .varPop, .varPush, .inlineMethod⟩,
    ⟨"cpobj", 0x70, .next, .pop2, .push0, .inlineType⟩,
    ⟨"ldobj", 0x71, .next, .pop1, .push1, .inlineType⟩,
    ⟨"ldstr", 0x72, .next, .pop0, .push1, .inlineString⟩,
    ⟨"newobj", 0x73, .call, .varPop, .push1, .inlineMethod⟩,
    ⟨"castclass", 0x74, .next, .pop1, .push1, .inlineType⟩,
    ⟨"isinst", 0x75, .next, .pop1, .push1, .inlineType⟩,
    ⟨"conv.r.un", 0x76, .next, .pop1, .push1, .inlineNone⟩,
    ⟨"unbox", 0x79, .next, .pop1, .push1, .inlineType⟩,
    ⟨"throw", 0x7A, .throw, .pop1, .push0, .inlineNone⟩,
    ⟨"ldfld", 0x7B, .next, .pop1, .push1, .inlineField⟩,
    ⟨"ldflda", 0x7C, .next, .pop1, .push1, .inlineField⟩,
    ⟨"stfld", 0x7D, .next, .pop2, .push0, .inlineField⟩,
    ⟨"ldsfld", 0x7E, .next, .pop0, .push1, .inlineField⟩,
    ⟨"ldsflda", 0x7F, .next, .pop0, .push1, .inlineField⟩,
    ⟨"stsfld", 0x80, .next, .pop1, .push0, .inlineField⟩,
    ⟨"stobj", 0x81, .next, .pop2, .push0, .inlineType⟩,
    ⟨"conv.ovf.i1.un", 0x82, .next, .pop1, .push1, .inlineNone⟩,
    ⟨"conv.ovf.i2.un", 0x83, .next, .pop1, .push1, .inlineNone⟩,
    ⟨"conv.ovf.i4.un", 0x84, .next, .pop1, .push1, .inlineNone⟩,
    ⟨"conv.ovf.i8.un", 0x85, .next, .pop1, .push1, .inlineNone⟩,
    ⟨"conv.ovf.u1.un", 0x86, .next, .pop1, .push1, .inlineNone⟩,
    ⟨"conv.ovf.u2.un", 0x87, .next, .pop1, .push1, .inlineNone⟩,
    ⟨"conv.ovf.u4.un", 0x88, .next, .pop1, .push1, .inlineNone⟩,
    ⟨"conv.ovf.u8.un", 0x89, .next, .pop1, .push1, .inlineNone⟩,
    ⟨"conv.ovf.i.un", 0x8A, .next, .pop1, .push1, .inlineNone⟩,
    ⟨"conv.ovf.u.un", 0x8B, .next, .pop1, .push1, .inlineNone⟩,
    ⟨"box", 0x8C, .next, .pop1, .push1, .inlineType⟩,
    ⟨"newarr", 0x8D, .next, .pop1, .push1, .inlineType⟩,
    ⟨"ldlen", 0x8E, .next, .pop1, .push1, .inlineNone⟩,
    ⟨"ldelema", 0x8F, .next, .pop2, .push1, .inlineType⟩,
    ⟨"ldelem.i1", 0x90, .next, .pop2, .push1, .inlineNone⟩,
    ⟨"ldelem.u1", 0x91, .next, .pop2, .push1, .inlineNone⟩,
    ⟨"ldelem.i2", 0x92, .next, .pop2, .push1, .inlineNone⟩,
    ⟨"ldelem.u2", 0x93, .next, .pop2, .push1, .inlineNone⟩,
    ⟨"ldelem.i4", 0x94, .next, .pop2, .push1, .inlineNone⟩,
    ⟨"ldelem.u4", 0x95, .next, .pop2, .push1, .inlineNone⟩,
    ⟨"ldelem.i8", 0x96, .next, .pop2, .push1, .inlineNone⟩,
    ⟨"ldelem.i", 0x97, .next, .pop2, .push1, .inlineNone⟩,
    ⟨"ldelem.r4", 0x98, .next, .pop2, .push1, .inlineNone⟩,
    ⟨"ldelem.r8", 0x99, .next, .pop2, .push1, .inlineNone⟩,
    ⟨"ldelem.ref", 0x9A, .next, .pop2, .push1, .inlineNone⟩,
    ⟨"stelem.i", 0x9B, .next, .pop3, .push0, .inlineNone⟩,
    ⟨"stelem.i1", 0x9C, .next, .pop3, .push0, .inlineNone⟩,
    ⟨"stelem.i2", 0x9D, .next, .pop3, .push0, .inlineNone⟩,
    ⟨"stelem.i4", 0x9E, .next, .pop3, .push0, .inlineNone⟩,
    ⟨"stelem.i8", 0x9F, .next, .pop3, .push0, .inlineNone⟩,
    ⟨"stelem.r4", 0xA0, .next, .pop3, .push0, .inlineNone⟩,
    ⟨"stelem.r8", 0xA1, .next, .pop3, .push0, .inlineNone⟩,
    ⟨"stelem.ref", 0xA2, .next, .pop3, .push0, .inlineNone⟩,
    ⟨"ldelem", 0xA3, .next, .pop2, .push1, .inlineType⟩,
    ⟨"stelem", 0xA4, .next, .pop3, .push0, .inlineType⟩,
    ⟨"unbox.any", 0xA5, .next, .pop1, .push1, .inlineType⟩,
    ⟨"conv.ovf.i1", 0xB3, .next, .pop1, .push1, .inlineNone⟩,
    ⟨"conv.ovf.u1", 0xB4, .next, .pop1, .push1, .inlineNone⟩,
    ⟨"conv.ovf.i2", 0xB5, .next, .pop1, .push1, .inlineNone⟩,
    ⟨"conv.ovf.u2", 0xB6, .next, .pop1, .push1, .inlineNone⟩,
    ⟨"conv.ovf.i4", 0xB7, .next, .pop1, .push1, .inlineNone⟩,
    ⟨"conv.ovf.u4", 0xB8, .next, .pop1, .push1, .inlineNone⟩,
    ⟨"conv.ovf.i8", 0xB9, .next, .pop1, .push1, .inlineNone⟩,
    ⟨"conv.ovf.u8", 0xBA, .next, .pop1, .push1, .inlineNone⟩,
    ⟨"refanyval", 0xC2, .next, .pop1, .push1, .inlineType⟩,
    ⟨"ckfinite", 0xC3, .next, .pop1, .push1, .inlineNone⟩,
    ⟨"mkrefany", 0xC6, .next, .pop1, .push1, .inlineType⟩,
    ⟨"ldtoken", 0xD0, .next, .pop0, .push1, .inlineTok⟩,
    ⟨"conv.u2", 0xD1, .next, .pop1, .push1, .inlineNone⟩,
    ⟨"conv.u1", 0xD2, .next, .pop1, .push1, .inlineNone⟩,
    ⟨"conv.i", 0xD3, .next, .pop1, .push1, .inlineNone⟩,
    ⟨"conv.ovf.i", 0xD4, .next, .pop1, .push1, .inlineNone⟩,
    ⟨"conv.ovf.u", 0xD5, .next, .pop1, .push1, .inlineNone⟩,
    ⟨"add.ovf", 0xD6, .next, .pop2, .push1, .inlineNone⟩,
    ⟨"add.ovf.un", 0xD7, .next, .pop2, .push1, .inlineNone⟩,
    ⟨"mul.ovf", 0xD8, .next, .pop2, .push1, .inlineNone⟩,
    ⟨"mul.ovf.un", 0xD9, .next, .pop2, .push1, .inlineNone⟩,
    ⟨"sub.ovf", 0xDA, .next, .pop2, .push1, .inlineNone⟩,
    ⟨"sub.ovf.un", 0xDB, .next, .pop2, .push1, .inlineNone⟩,
    ⟨"endfinally", 0xDC, .ret, .pop0, .push0, .inlineNone⟩,
    ⟨"leave", 0xDD, .branch, .popAll, .push0, .inlineBrTarget⟩,
    ⟨"leave.s", 0xDE, .branch, .popAll, .push0, .shortInlineBrTarget⟩,
    ⟨"stind.i", 0xDF, .next, .pop2, .push0, .inlineNone⟩,
    ⟨"conv.u", 0xE0, .next, .pop1, .push1, .inlineNone⟩,
    ⟨"arglist", 0xFE00, .next, .pop0, .push1, .inlineNone⟩,
    ⟨"ceq", 0xFE01, .next, .pop2, .push1, .inlineNone⟩,
    ⟨"cgt", 0xFE02, .next, .pop2, .push1, .inlineNone⟩,
    ⟨"cgt.un", 0xFE03, .next, .pop2, .push1, .inlineNone⟩,
    ⟨"clt", 0xFE04, .next, .pop2, .push1, .inlineNone⟩,
    ⟨"clt.un", 0xFE05, .next, .pop2, .push1, .inlineNone⟩,
    ⟨"ldftn", 0xFE06, .next, .pop0, .push1, .inlineMethod⟩,
    ⟨"ldvirtftn", 0xFE07, .next, .pop1, .push1, .inlineMethod⟩,
    ⟨"ldarg", 0xFE09, .next, .pop0, .push1, .inlineArg⟩,
    ⟨"ldarga", 0xFE0A, .next, .pop0, .push1, .inlineArg⟩,
    ⟨"starg", 0xFE0B, .next, .pop1, .push0, .inlineArg⟩,
    ⟨"ldloc", 0xFE0C, .next, .pop0, .push1, .inlineVar⟩,
    ⟨"ldloca", 0xFE0D, .next, .pop0, .push1, .inlineVar⟩,
    ⟨"stloc", 0xFE0E, .next, .pop1, .push0, .inlineVar⟩,
    ⟨"localloc", 0xFE0F, .next, .pop1, .push1, .inlineNone⟩,
    ⟨"endfilter", 0xFE11, .ret, .pop1, .push0, .inlineNone⟩,
    ⟨"unaligned.", 0xFE12, .metadata, .pop0, .push0, .shortInlineI⟩,
    ⟨"volatile.", 0xFE13, .metadata, .pop0, .push0, .inlineNone⟩,
    ⟨"tail.", 0xFE14, .metadata, .pop0, .push0, .inlineNone⟩,
    ⟨"initobj", 0xFE15, .next, .pop1, .push0, .inlineType⟩,
    ⟨"constrained.", 0xFE16, .metadata, .pop0, .push0, .inlineType⟩,
    ⟨"cpblk", 0xFE17, .next, .pop3, .push0, .inlineNone⟩,
    ⟨"initblk", 0xFE18, .next, .pop3, .push0, .inlineNone⟩,
    ⟨"no.", 0xFE19, .metadata, .pop0, .push0, .shortInlineI⟩,
    ⟨"rethrow", 0xFE1A, .throw, .pop0, .push0, .inlineNone⟩,
    ⟨"sizeof", 0xFE1C, .next, .pop0, .push1, .inlineType⟩,
    ⟨"refanytype", 0xFE1D, .next, .pop1, .push1, .inlineNone⟩,
    ⟨"readonly.", 0xFE1E, .metadata, .pop0, .push0, .inlineNone⟩ ]

/-- The opcode with the given encoded value. -/
def ofValue? (value : Nat) : Option Opcode := table.find? (·.value == value)

/-- The opcode with the given mnemonic. -/
def ofName? (name : String) : Option Opcode := table.find? (·.name == name)

/-- An opcode found by its value has that value. -/
theorem value_of_ofValue? {value : Nat} {opcode : Opcode} (h : ofValue? value = some opcode) :
    opcode.value = value := by
  have hfound := List.find?_some h
  exact beq_iff_eq.mp hfound

end Unstack.Opcode
