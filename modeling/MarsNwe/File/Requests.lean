import MarsNwe.File.CreatOpen

/-! # Requests on file handles -/

namespace MarsNwe

open Prog

/-- A request of a client that works on the file handles. -/
inductive FileRequest where
  | creatOpen (e : OpenRequest)
  | close (fhandle : Int) (resetReuse : Bool) (task : Int)
  | freeTask (task : Int)
  /-- `sigbus` is how often the copy meets the end of a mapped file. -/
  | read (fhandle : Int) (size : Int32) (offset : UInt32) (sigbus : Nat)
  | write (fhandle : Int) (data : List UInt8) (size : Int32) (offset : UInt32)
  | seek (fhandle : Int) (modus : Int) (rand : UInt16)
  | serverCopy (qfhandle : Int) (qoffset : UInt32) (zfhandle : Int) (zoffset : UInt32)
      (size : UInt32)

/-- The answer: a result, the data of a read, `stbuff` of an open. -/
structure FileAnswer where
  result : Int
  data : List UInt8
  stbuff : Option NodeStat

/-- The file handles of a connection. -/
def fileSession (cfg : FileConfig) :
    Session FileCall FileCall.Answer FileTable FileRequest FileAnswer where
  handle t
    | .creatOpen e => do
        let ((result, stbuff), t) ← fileCreatOpen cfg t e
        pure (⟨result, [], stbuff⟩, t)
    | .close fhandle resetReuse task => do
        let (result, t) ← nwCloseFile cfg t fhandle resetReuse task
        pure (⟨result, [], none⟩, t)
    | .freeTask task => do
        let t ← initFileModule cfg t task
        pure (⟨0, [], none⟩, t)
    | .read fhandle size offset sigbus => do
        let ((result, data), t) ← nwReadFile cfg t fhandle size offset sigbus
        pure (⟨result, data, none⟩, t)
    | .write fhandle data size offset => do
        let (result, t) ← nwWriteFile cfg t fhandle data size offset
        pure (⟨result, [], none⟩, t)
    | .seek fhandle modus rand => do
        let (result, t) ← nwSeekFile t fhandle modus rand
        pure (⟨result, [], none⟩, t)
    | .serverCopy qfhandle qoffset zfhandle zoffset size => do
        let (result, t) ← nwServerCopy t qfhandle qoffset zfhandle zoffset size
        pure (⟨result, [], none⟩, t)

/-- No handle has been opened yet. -/
def FileTable.init : FileTable := ⟨[], 0, []⟩

end MarsNwe
