import ClassCensus.Specification.Basic

/-!
# The built-in specifications

Each row of the tables carries the major version since which it holds.  A generation is the time
from one such version to the next, and its specification has the rows known by then, so later
generations only add rows.
-/

namespace ClassCensus

namespace Builtin

/-- The layouts of constants, each with the major version since which it holds. -/
def layouts : List (Nat × ConstantLayout) :=
  [
    (45, ⟨1, .utf8, [⟨"string_value", .utf8⟩]⟩),
    (45, ⟨3, .integer, [⟨"int_value", .int⟩]⟩),
    (45, ⟨4, .float, [⟨"float_value", .float⟩]⟩),
    (45, ⟨5, .long, [⟨"long_value", .long⟩]⟩),
    (45, ⟨6, .double, [⟨"double_value", .double⟩]⟩),
    (45, ⟨7, .classInfo, [⟨"name_index", .short⟩]⟩),
    (45, ⟨8, .string, [⟨"string_index", .short⟩]⟩),
    (45, ⟨9, .fieldRef, [⟨"class_index", .short⟩, ⟨"name_and_type_index", .short⟩]⟩),
    (45, ⟨10, .methodRef, [⟨"class_index", .short⟩, ⟨"name_and_type_index", .short⟩]⟩),
    (45, ⟨11, .interfaceMethodRef, [⟨"class_index", .short⟩, ⟨"name_and_type_index", .short⟩]⟩),
    (45, ⟨12, .nameAndType, [⟨"name_index", .short⟩, ⟨"descriptor_index", .short⟩]⟩),
    (51, ⟨15, .methodHandle, [⟨"reference_kind", .byte⟩, ⟨"reference_index", .short⟩]⟩),
    (51, ⟨16, .methodType, [⟨"descriptor_index", .short⟩]⟩),
    (55,
      ⟨17, .dynamic, [⟨"bootstrap_method_attr_index", .short⟩, ⟨"name_and_type_index", .short⟩]⟩),
    (51, ⟨18, .invokeDynamic, [⟨"bootstrap_method_attr_index", .short⟩,
      ⟨"name_and_type_index", .short⟩]⟩),
    (53, ⟨19, .moduleInfo, [⟨"name_index", .short⟩]⟩),
    (53, ⟨20, .packageInfo, [⟨"name_index", .short⟩]⟩)
  ]

/-- The instructions, each with the major version since which it holds. -/
def mnemonics : List (Nat × Mnemonic) :=
  [
    (45, ⟨0x00, "nop", .fixed 0⟩), (45, ⟨0x01, "aconst_null", .fixed 0⟩),
    (45, ⟨0x02, "iconst_m1", .fixed 0⟩), (45, ⟨0x03, "iconst_0", .fixed 0⟩),
    (45, ⟨0x04, "iconst_1", .fixed 0⟩), (45, ⟨0x05, "iconst_2", .fixed 0⟩),
    (45, ⟨0x06, "iconst_3", .fixed 0⟩), (45, ⟨0x07, "iconst_4", .fixed 0⟩),
    (45, ⟨0x08, "iconst_5", .fixed 0⟩), (45, ⟨0x09, "lconst_0", .fixed 0⟩),
    (45, ⟨0x0A, "lconst_1", .fixed 0⟩), (45, ⟨0x0B, "fconst_0", .fixed 0⟩),
    (45, ⟨0x0C, "fconst_1", .fixed 0⟩), (45, ⟨0x0D, "fconst_2", .fixed 0⟩),
    (45, ⟨0x0E, "dconst_0", .fixed 0⟩), (45, ⟨0x0F, "dconst_1", .fixed 0⟩),
    (45, ⟨0x10, "bipush", .fixed 1⟩), (45, ⟨0x11, "sipush", .fixed 2⟩),
    (45, ⟨0x12, "ldc", .fixed 1⟩), (45, ⟨0x13, "ldc_w", .fixed 2⟩),
    (45, ⟨0x14, "ldc2_w", .fixed 2⟩), (45, ⟨0x15, "iload", .fixed 1⟩),
    (45, ⟨0x16, "lload", .fixed 1⟩), (45, ⟨0x17, "fload", .fixed 1⟩),
    (45, ⟨0x18, "dload", .fixed 1⟩), (45, ⟨0x19, "aload", .fixed 1⟩),
    (45, ⟨0x1A, "iload_0", .fixed 0⟩), (45, ⟨0x1B, "iload_1", .fixed 0⟩),
    (45, ⟨0x1C, "iload_2", .fixed 0⟩), (45, ⟨0x1D, "iload_3", .fixed 0⟩),
    (45, ⟨0x1E, "lload_0", .fixed 0⟩), (45, ⟨0x1F, "lload_1", .fixed 0⟩),
    (45, ⟨0x20, "lload_2", .fixed 0⟩), (45, ⟨0x21, "lload_3", .fixed 0⟩),
    (45, ⟨0x22, "fload_0", .fixed 0⟩), (45, ⟨0x23, "fload_1", .fixed 0⟩),
    (45, ⟨0x24, "fload_2", .fixed 0⟩), (45, ⟨0x25, "fload_3", .fixed 0⟩),
    (45, ⟨0x26, "dload_0", .fixed 0⟩), (45, ⟨0x27, "dload_1", .fixed 0⟩),
    (45, ⟨0x28, "dload_2", .fixed 0⟩), (45, ⟨0x29, "dload_3", .fixed 0⟩),
    (45, ⟨0x2A, "aload_0", .fixed 0⟩), (45, ⟨0x2B, "aload_1", .fixed 0⟩),
    (45, ⟨0x2C, "aload_2", .fixed 0⟩), (45, ⟨0x2D, "aload_3", .fixed 0⟩),
    (45, ⟨0x2E, "iaload", .fixed 0⟩), (45, ⟨0x2F, "laload", .fixed 0⟩),
    (45, ⟨0x30, "faload", .fixed 0⟩), (45, ⟨0x31, "daload", .fixed 0⟩),
    (45, ⟨0x32, "aaload", .fixed 0⟩), (45, ⟨0x33, "baload", .fixed 0⟩),
    (45, ⟨0x34, "caload", .fixed 0⟩), (45, ⟨0x35, "saload", .fixed 0⟩),
    (45, ⟨0x36, "istore", .fixed 1⟩), (45, ⟨0x37, "lstore", .fixed 1⟩),
    (45, ⟨0x38, "fstore", .fixed 1⟩), (45, ⟨0x39, "dstore", .fixed 1⟩),
    (45, ⟨0x3A, "astore", .fixed 1⟩), (45, ⟨0x3B, "istore_0", .fixed 0⟩),
    (45, ⟨0x3C, "istore_1", .fixed 0⟩), (45, ⟨0x3D, "istore_2", .fixed 0⟩),
    (45, ⟨0x3E, "istore_3", .fixed 0⟩), (45, ⟨0x3F, "lstore_0", .fixed 0⟩),
    (45, ⟨0x40, "lstore_1", .fixed 0⟩), (45, ⟨0x41, "lstore_2", .fixed 0⟩),
    (45, ⟨0x42, "lstore_3", .fixed 0⟩), (45, ⟨0x43, "fstore_0", .fixed 0⟩),
    (45, ⟨0x44, "fstore_1", .fixed 0⟩), (45, ⟨0x45, "fstore_2", .fixed 0⟩),
    (45, ⟨0x46, "fstore_3", .fixed 0⟩), (45, ⟨0x47, "dstore_0", .fixed 0⟩),
    (45, ⟨0x48, "dstore_1", .fixed 0⟩), (45, ⟨0x49, "dstore_2", .fixed 0⟩),
    (45, ⟨0x4A, "dstore_3", .fixed 0⟩), (45, ⟨0x4B, "astore_0", .fixed 0⟩),
    (45, ⟨0x4C, "astore_1", .fixed 0⟩), (45, ⟨0x4D, "astore_2", .fixed 0⟩),
    (45, ⟨0x4E, "astore_3", .fixed 0⟩), (45, ⟨0x4F, "iastore", .fixed 0⟩),
    (45, ⟨0x50, "lastore", .fixed 0⟩), (45, ⟨0x51, "fastore", .fixed 0⟩),
    (45, ⟨0x52, "dastore", .fixed 0⟩), (45, ⟨0x53, "aastore", .fixed 0⟩),
    (45, ⟨0x54, "bastore", .fixed 0⟩), (45, ⟨0x55, "castore", .fixed 0⟩),
    (45, ⟨0x56, "sastore", .fixed 0⟩), (45, ⟨0x57, "pop", .fixed 0⟩),
    (45, ⟨0x58, "pop2", .fixed 0⟩), (45, ⟨0x59, "dup", .fixed 0⟩),
    (45, ⟨0x5A, "dup_x1", .fixed 0⟩), (45, ⟨0x5B, "dup_x2", .fixed 0⟩),
    (45, ⟨0x5C, "dup2", .fixed 0⟩), (45, ⟨0x5D, "dup2_x1", .fixed 0⟩),
    (45, ⟨0x5E, "dup2_x2", .fixed 0⟩), (45, ⟨0x5F, "swap", .fixed 0⟩),
    (45, ⟨0x60, "iadd", .fixed 0⟩), (45, ⟨0x61, "ladd", .fixed 0⟩), (45, ⟨0x62, "fadd", .fixed 0⟩),
    (45, ⟨0x63, "dadd", .fixed 0⟩), (45, ⟨0x64, "isub", .fixed 0⟩), (45, ⟨0x65, "lsub", .fixed 0⟩),
    (45, ⟨0x66, "fsub", .fixed 0⟩), (45, ⟨0x67, "dsub", .fixed 0⟩), (45, ⟨0x68, "imul", .fixed 0⟩),
    (45, ⟨0x69, "lmul", .fixed 0⟩), (45, ⟨0x6A, "fmul", .fixed 0⟩), (45, ⟨0x6B, "dmul", .fixed 0⟩),
    (45, ⟨0x6C, "idiv", .fixed 0⟩), (45, ⟨0x6D, "ldiv", .fixed 0⟩), (45, ⟨0x6E, "fdiv", .fixed 0⟩),
    (45, ⟨0x6F, "ddiv", .fixed 0⟩), (45, ⟨0x70, "irem", .fixed 0⟩), (45, ⟨0x71, "lrem", .fixed 0⟩),
    (45, ⟨0x72, "frem", .fixed 0⟩), (45, ⟨0x73, "drem", .fixed 0⟩), (45, ⟨0x74, "ineg", .fixed 0⟩),
    (45, ⟨0x75, "lneg", .fixed 0⟩), (45, ⟨0x76, "fneg", .fixed 0⟩), (45, ⟨0x77, "dneg", .fixed 0⟩),
    (45, ⟨0x78, "ishl", .fixed 0⟩), (45, ⟨0x79, "lshl", .fixed 0⟩), (45, ⟨0x7A, "ishr", .fixed 0⟩),
    (45, ⟨0x7B, "lshr", .fixed 0⟩), (45, ⟨0x7C, "iushr", .fixed 0⟩),
    (45, ⟨0x7D, "lushr", .fixed 0⟩), (45, ⟨0x7E, "iand", .fixed 0⟩),
    (45, ⟨0x7F, "land", .fixed 0⟩), (45, ⟨0x80, "ior", .fixed 0⟩), (45, ⟨0x81, "lor", .fixed 0⟩),
    (45, ⟨0x82, "ixor", .fixed 0⟩), (45, ⟨0x83, "lxor", .fixed 0⟩), (45, ⟨0x84, "iinc", .fixed 2⟩),
    (45, ⟨0x85, "i2l", .fixed 0⟩), (45, ⟨0x86, "i2f", .fixed 0⟩), (45, ⟨0x87, "i2d", .fixed 0⟩),
    (45, ⟨0x88, "l2i", .fixed 0⟩), (45, ⟨0x89, "l2f", .fixed 0⟩), (45, ⟨0x8A, "l2d", .fixed 0⟩),
    (45, ⟨0x8B, "f2i", .fixed 0⟩), (45, ⟨0x8C, "f2l", .fixed 0⟩), (45, ⟨0x8D, "f2d", .fixed 0⟩),
    (45, ⟨0x8E, "d2i", .fixed 0⟩), (45, ⟨0x8F, "d2l", .fixed 0⟩), (45, ⟨0x90, "d2f", .fixed 0⟩),
    (45, ⟨0x91, "i2b", .fixed 0⟩), (45, ⟨0x92, "i2c", .fixed 0⟩), (45, ⟨0x93, "i2s", .fixed 0⟩),
    (45, ⟨0x94, "lcmp", .fixed 0⟩), (45, ⟨0x95, "fcmpl", .fixed 0⟩),
    (45, ⟨0x96, "fcmpg", .fixed 0⟩), (45, ⟨0x97, "dcmpl", .fixed 0⟩),
    (45, ⟨0x98, "dcmpg", .fixed 0⟩), (45, ⟨0x99, "ifeq", .fixed 2⟩),
    (45, ⟨0x9A, "ifne", .fixed 2⟩), (45, ⟨0x9B, "iflt", .fixed 2⟩), (45, ⟨0x9C, "ifge", .fixed 2⟩),
    (45, ⟨0x9D, "ifgt", .fixed 2⟩), (45, ⟨0x9E, "ifle", .fixed 2⟩),
    (45, ⟨0x9F, "if_icmpeq", .fixed 2⟩), (45, ⟨0xA0, "if_icmpne", .fixed 2⟩),
    (45, ⟨0xA1, "if_icmplt", .fixed 2⟩), (45, ⟨0xA2, "if_icmpge", .fixed 2⟩),
    (45, ⟨0xA3, "if_icmpgt", .fixed 2⟩), (45, ⟨0xA4, "if_icmple", .fixed 2⟩),
    (45, ⟨0xA5, "if_acmpeq", .fixed 2⟩), (45, ⟨0xA6, "if_acmpne", .fixed 2⟩),
    (45, ⟨0xA7, "goto", .fixed 2⟩), (45, ⟨0xA8, "jsr", .fixed 2⟩), (45, ⟨0xA9, "ret", .fixed 1⟩),
    (45, ⟨0xAA, "tableswitch", .tableSwitch⟩), (45, ⟨0xAB, "lookupswitch", .lookupSwitch⟩),
    (45, ⟨0xAC, "ireturn", .fixed 0⟩), (45, ⟨0xAD, "lreturn", .fixed 0⟩),
    (45, ⟨0xAE, "freturn", .fixed 0⟩), (45, ⟨0xAF, "dreturn", .fixed 0⟩),
    (45, ⟨0xB0, "areturn", .fixed 0⟩), (45, ⟨0xB1, "return", .fixed 0⟩),
    (45, ⟨0xB2, "getstatic", .fixed 2⟩), (45, ⟨0xB3, "putstatic", .fixed 2⟩),
    (45, ⟨0xB4, "getfield", .fixed 2⟩), (45, ⟨0xB5, "putfield", .fixed 2⟩),
    (45, ⟨0xB6, "invokevirtual", .fixed 2⟩), (45, ⟨0xB7, "invokespecial", .fixed 2⟩),
    (45, ⟨0xB8, "invokestatic", .fixed 2⟩), (45, ⟨0xB9, "invokeinterface", .fixed 4⟩),
    (51, ⟨0xBA, "invokedynamic", .fixed 4⟩), (45, ⟨0xBB, "new", .fixed 2⟩),
    (45, ⟨0xBC, "newarray", .fixed 1⟩), (45, ⟨0xBD, "anewarray", .fixed 2⟩),
    (45, ⟨0xBE, "arraylength", .fixed 0⟩), (45, ⟨0xBF, "athrow", .fixed 0⟩),
    (45, ⟨0xC0, "checkcast", .fixed 2⟩), (45, ⟨0xC1, "instanceof", .fixed 2⟩),
    (45, ⟨0xC2, "monitorenter", .fixed 0⟩), (45, ⟨0xC3, "monitorexit", .fixed 0⟩),
    (45, ⟨0xC4, "wide", .wide⟩), (45, ⟨0xC5, "multianewarray", .fixed 3⟩),
    (45, ⟨0xC6, "ifnull", .fixed 2⟩), (45, ⟨0xC7, "ifnonnull", .fixed 2⟩),
    (45, ⟨0xC8, "goto_w", .fixed 4⟩), (45, ⟨0xC9, "jsr_w", .fixed 4⟩),
    (45, ⟨0xCA, "breakpoint", .fixed 0⟩), (45, ⟨0xFE, "impdep1", .fixed 0⟩),
    (45, ⟨0xFF, "impdep2", .fixed 0⟩)
  ]

/-- The major version at which a generation starts, and the compiler versions it covers. -/
def generations : List (Nat × List String) :=
  [
    (45, ["1.1", "1.2", "1.3", "1.4", "1.5", "1.6"]),
    (51, ["1.7", "1.8"]),
    (53, ["9", "10"]),
    (55, ["11", "12", "13", "14", "15", "16", "17", "18", "19", "20", "21", "22", "23", "24",
      "25"])
  ]

/-- The rows that hold at a major version. -/
def knownAt (major : Nat) (rows : List (Nat × α)) : List α :=
  (rows.filter fun row => row.1 ≤ major).map Prod.snd

/-- The specification of the generation that starts at a major version. -/
def specification (generation : Nat × List String) : Specification :=
  .new generation.2 (knownAt generation.1 layouts) (knownAt generation.1 mnemonics)

end Builtin

def Specifications.builtin : Specifications where
  toList := Builtin.generations.map Builtin.specification
  nonempty := by simp [Builtin.generations]

end ClassCensus
