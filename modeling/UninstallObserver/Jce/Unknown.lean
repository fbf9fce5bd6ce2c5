import UninstallObserver.Jce.BufferedStream

/-! Fields that a reader does not know: it takes their bytes over and writes them again. -/
namespace UninstallObserver.Jce
open Imperative ByteOrder ArrayHeap BufferReader

variable {w : ℕ}

namespace BufferReader

end BufferReader

section Loop
variable {buf tail : List Byte} {fs : List Field} {f : Field} {p n : ℕ} {tag : BitVec 8}
  {last : BitVec w}

end Loop

section Known
variable {E : Env} {buf tail : List Byte} {fs written asked : List Field} {p : ℕ}
  {tag tag' : BitVec 8}

end Known

section Places
variable {asked own fs : List Field} {last : Field}

end Places

section Forward
variable {E : Env} {written asked : List Field} {pre body tail : List Byte} {last : Field} {n : ℕ}

end Forward

end UninstallObserver.Jce
