/-!
# Operation codes

An operation code is kept as its number. This file names the codes that the rules of the library
mention, gives every number its mnemonic, and delimits the families of codes that are treated
alike. Numbers above 201 are unassigned.

## Main definitions

* `Opcode` and the constants in its namespace.
* `Opcode.mnemonic`: the name shown in messages.
* `Opcode.isReturn`, `Opcode.isInvoke`: the return and call families.
-/

namespace ClassEdit

/-- The number of an operation in the instruction set. -/
abbrev Opcode := Nat

namespace Opcode

abbrev aconstNull : Opcode := 1
abbrev iconstM1 : Opcode := 2
abbrev iconst0 : Opcode := 3
abbrev iconst5 : Opcode := 8
abbrev lconst0 : Opcode := 9
abbrev lconst1 : Opcode := 10
abbrev fconst0 : Opcode := 11
abbrev fconst1 : Opcode := 12
abbrev fconst2 : Opcode := 13
abbrev dconst0 : Opcode := 14
abbrev dconst1 : Opcode := 15
abbrev bipush : Opcode := 16
abbrev sipush : Opcode := 17
abbrev ldc : Opcode := 18
abbrev iload : Opcode := 21
abbrev lload : Opcode := 22
abbrev fload : Opcode := 23
abbrev dload : Opcode := 24
abbrev aload : Opcode := 25
abbrev istore : Opcode := 54
abbrev lstore : Opcode := 55
abbrev fstore : Opcode := 56
abbrev dstore : Opcode := 57
abbrev astore : Opcode := 58
abbrev pop : Opcode := 87
abbrev pop2 : Opcode := 88
abbrev fmul : Opcode := 106
abbrev iinc : Opcode := 132
abbrev i2f : Opcode := 134
abbrev f2i : Opcode := 139
abbrev ifeq : Opcode := 153
abbrev ifle : Opcode := 158
abbrev ifIcmpeq : Opcode := 159
abbrev ifAcmpeq : Opcode := 165
abbrev ifAcmpne : Opcode := 166
abbrev goto : Opcode := 167
abbrev jsr : Opcode := 168
abbrev ret : Opcode := 169
abbrev tableswitch : Opcode := 170
abbrev lookupswitch : Opcode := 171
abbrev ireturn : Opcode := 172
abbrev lreturn : Opcode := 173
abbrev freturn : Opcode := 174
abbrev dreturn : Opcode := 175
abbrev areturn : Opcode := 176
abbrev vreturn : Opcode := 177
abbrev getstatic : Opcode := 178
abbrev putstatic : Opcode := 179
abbrev getfield : Opcode := 180
abbrev putfield : Opcode := 181
abbrev invokevirtual : Opcode := 182
abbrev invokespecial : Opcode := 183
abbrev invokestatic : Opcode := 184
abbrev invokeinterface : Opcode := 185
abbrev invokedynamic : Opcode := 186
abbrev new : Opcode := 187
abbrev newarray : Opcode := 188
abbrev anewarray : Opcode := 189
abbrev athrow : Opcode := 191
abbrev checkcast : Opcode := 192
abbrev instanceOf : Opcode := 193
abbrev multianewarray : Opcode := 197
abbrev ifnull : Opcode := 198
abbrev ifnonnull : Opcode := 199
abbrev gotoW : Opcode := 200
abbrev jsrW : Opcode := 201

/-- The mnemonics in the order of the codes. -/
def mnemonics : List String :=
  ["nop", "aconst_null", "iconst_m1", "iconst_0", "iconst_1", "iconst_2", "iconst_3", "iconst_4",
   "iconst_5", "lconst_0", "lconst_1", "fconst_0", "fconst_1", "fconst_2", "dconst_0", "dconst_1",
   "bipush", "sipush", "ldc", "ldc_w", "ldc2_w", "iload", "lload", "fload", "dload", "aload",
   "iload_0", "iload_1", "iload_2", "iload_3", "lload_0", "lload_1", "lload_2", "lload_3",
   "fload_0", "fload_1", "fload_2", "fload_3", "dload_0", "dload_1", "dload_2", "dload_3",
   "aload_0", "aload_1", "aload_2", "aload_3", "iaload", "laload", "faload", "daload", "aaload",
   "baload", "caload", "saload", "istore", "lstore", "fstore", "dstore", "astore", "istore_0",
   "istore_1", "istore_2", "istore_3", "lstore_0", "lstore_1", "lstore_2", "lstore_3", "fstore_0",
   "fstore_1", "fstore_2", "fstore_3", "dstore_0", "dstore_1", "dstore_2", "dstore_3", "astore_0",
   "astore_1", "astore_2", "astore_3", "iastore", "lastore", "fastore", "dastore", "aastore",
   "bastore", "castore", "sastore", "pop", "pop2", "dup", "dup_x1", "dup_x2", "dup2", "dup2_x1",
   "dup2_x2", "swap", "iadd", "ladd", "fadd", "dadd", "isub", "lsub", "fsub", "dsub", "imul",
   "lmul", "fmul", "dmul", "idiv", "ldiv", "fdiv", "ddiv", "irem", "lrem", "frem", "drem", "ineg",
   "lneg", "fneg", "dneg", "ishl", "lshl", "ishr", "lshr", "iushr", "lushr", "iand", "land",
   "ior", "lor", "ixor", "lxor", "iinc", "i2l", "i2f", "i2d", "l2i", "l2f", "l2d", "f2i", "f2l",
   "f2d", "d2i", "d2l", "d2f", "i2b", "i2c", "i2s", "lcmp", "fcmpl", "fcmpg", "dcmpl", "dcmpg",
   "ifeq", "ifne", "iflt", "ifge", "ifgt", "ifle", "if_icmpeq", "if_icmpne", "if_icmplt",
   "if_icmpge", "if_icmpgt", "if_icmple", "if_acmpeq", "if_acmpne", "goto", "jsr", "ret",
   "tableswitch", "lookupswitch", "ireturn", "lreturn", "freturn", "dreturn", "areturn", "return",
   "getstatic", "putstatic", "getfield", "putfield", "invokevirtual", "invokespecial",
   "invokestatic", "invokeinterface", "invokedynamic", "new", "newarray", "anewarray",
   "arraylength", "athrow", "checkcast", "instanceof", "monitorenter", "monitorexit", "wide",
   "multianewarray", "ifnull", "ifnonnull", "goto_w", "jsr_w"]

/-- The mnemonic of a code, and question marks for an unassigned one. -/
def mnemonic (opcode : Opcode) : String := mnemonics.getD opcode "???"

/-- The six return operations. -/
def isReturn (opcode : Opcode) : Bool := decide (ireturn ≤ opcode) && decide (opcode ≤ vreturn)

/-- The four call operations with a symbolic method reference. -/
def isInvoke (opcode : Opcode) : Bool :=
  decide (invokevirtual ≤ opcode) && decide (opcode ≤ invokeinterface)

end Opcode

end ClassEdit
