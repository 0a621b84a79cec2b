import MarsNwe.Nwconn.RequestInput

/-! # The layouts of the requests

`handle_ncp_serv`: the function of a request, and for some the function behind it, say
where its numbers and names stand. The places count from the start of `readbuff`; the
request header takes the first seven.
-/

namespace MarsNwe.RequestInput

open ServCall

variable {π : Type} (s : Server π)

/-! ## Families of requests -/

/-- A length at `o` and a name behind it. -/
def takeName (o : Nat) : Taking (List UInt8) := do
  let len ← takeByte o
  takeText (o + 1) len.toNat

/-- The requests that name a file by a directory handle and go on to one request
function. -/
def takeDirName (dirHandle name : Nat) (call : UInt8 → List UInt8 → ServCall π) :
    Taking (ServCall π) := do
  let dirHandle ← takeByte dirHandle
  let data ← takeName name
  return call dirHandle data

/-! ## Function 0x16 -/

/-- Rename a directory: the second name stands behind the first. -/
def renameDir : Taking (ServCall π) := do
  let dirHandle ← takeByte 10
  let oldpathlen ← takeByte 11
  let newpathlen ← takeByte (12 + oldpathlen.toNat)
  let oldpath ← takeText 12 oldpathlen.toNat
  let newpath ← takeSecondName s dirHandle oldpath (13 + oldpathlen.toNat) newpathlen
  return .mvDir dirHandle oldpath newpath

/-- `case 0x16` -/
def handleFunc0x16 (task : UInt8) : Taking (ServCall π) := do
  let ufunc ← takeByte 9
  match ufunc with
  | 0x00 => do
      let target ← takeByte 10
      takeDirName 11 12 fun source path => .nwSetDirHandle target source path task
  | 0x01 => do
      let dirHandle ← takeByte 10
      return .nwGetDirectoryPath dirHandle
  | 0x02 => do
      let dirHandle ← takeByte 10
      let subnr ← takeBe16 11
      let len ← takeByte 13
      -- the last part is searched from the end
      let path ← takeBytes 14 len.toNat
      return .nwScanDirInfo dirHandle path subnr
  | 0x03 => takeDirName 10 11 fun dirHandle path => .nwGetEffDirRights dirHandle path 0
  | 0x04 => return .completition 0xfb
  | 0x05 => do
      let volname ← takeName 10
      return .nwGetVolumeNumber volname
  | 0x06 => do
      let volume ← takeByte 10
      return .nwGetVolumeName volume
  | 0x0a => takeDirName 10 12 fun dirHandle path => .nwMkRdDir dirHandle path 1
  | 0x0b => takeDirName 10 12 fun dirHandle path => .nwMkRdDir dirHandle path 0
  | 0x0d => do
      let trusteeId ← takeBe32 11
      let trusteeRightMask ← takeByte 15
      takeDirName 10 16 fun dirHandle path =>
        .nwAddTrustee dirHandle path trusteeId trusteeRightMask.toUInt16 false
  | 0x0e => do
      let trusteeId ← takeBe32 11
      takeDirName 10 16 fun dirHandle path => .nwDelTrustee dirHandle path trusteeId false
  | 0x0f => renameDir s
  | 0x12 => do
      let drive ← takeByte 11
      takeDirName 10 12 fun dirHandle path => .nwAllocDirHandle dirHandle path drive 0 task
  | 0x13 => do
      let drive ← takeByte 11
      takeDirName 10 12 fun dirHandle path => .nwAllocDirHandle dirHandle path drive 1 task
  | 0x16 => do
      let drive ← takeByte 11
      takeDirName 10 12 fun dirHandle path => .nwAllocDirHandle dirHandle path drive 2 task
  | 0x14 => do
      let dirHandle ← takeByte 10
      return .nwFreeDirHandle dirHandle task
  | 0x15 => do
      let dirHandle ← takeByte 10
      return .nwGetVolNumber dirHandle
  | 0x19 => do
      let creationDate ← takeBe16 11
      let creationTime ← takeBe16 13
      let ownerId ← takeBe32 15
      let newMaxRights ← takeByte 19
      takeDirName 10 20 fun dirHandle path =>
        .nwSetDirInfo dirHandle path ownerId newMaxRights creationDate creationTime
  | 0x1a => return .completition 0xfb
  | 0x1e => do
      let attrib ← takeByte 11
      let searchsequence ← takeBe32 12
      takeDirName 10 16 fun dirHandle data =>
        .nwScanADirectory dirHandle data attrib searchsequence
  | 0x1f => do
      let dirHandle ← takeByte 10
      return .nwScanARootDir dirHandle
  | 0x20 => do
      let volnr ← takeByte 10
      return .nwGetVolumeName volnr
  | 0x21 => return .prehandled
  | 0x22 => return .prehandled
  | 0x25 => do
      let dirHandle ← takeByte 10
      let attrib ← takeByte 11
      nwSetADirectoryEntry s dirHandle attrib
  | 0x26 => do
      let sequence ← takeByte 11
      takeDirName 10 12 fun dirHandle path => .nwScanForTrustee dirHandle sequence path
  | 0x27 => do
      let trusteeId ← takeBe32 11
      let trusteeRights ← takeLe16 15
      takeDirName 10 17 fun dirHandle path =>
        .nwAddTrustee dirHandle path trusteeId trusteeRights true
  | 0x28 => do
      let attrib ← takeByte 11
      let searchsequence ← takeBe32 12
      takeDirName 10 16 fun dirHandle data =>
        .nwScanADirectory dirHandle data attrib searchsequence
  -- without QUOTA_SUPPORT the reply is always the same
  | 0x29 => do
      let _volnr ← takeByte 10
      let _id ← takeBe32 11
      return .completition 0
  | 0x2a => takeDirName 10 11 fun dirHandle path => .nwGetEffDirRights dirHandle path 1
  | 0x2b => do
      let trusteeId ← takeBe32 11
      takeDirName 10 16 fun dirHandle path => .nwDelTrustee dirHandle path trusteeId true
  | 0x2c => do
      let volume ← takeByte 10
      return .nwGetVolumeName volume
  | 0x2d => do
      let dirHandle ← takeByte 10
      return .nwGetVolNumber dirHandle
  | 0x2e => return .completition 0xfb
  | 0x2f => do
      let volume ← takeByte 10
      return .fillNamespaceBuffer volume
  | 0x30 => do
      let volume ← takeByte 10
      let basehandle ← takeLe32 11
      let namespaceId ← takeByte 15
      return .getNamespaceDirEntry volume basehandle namespaceId
  | _ => return .completition 0xfb

/-! ## Function 0x17 -/

/-- Create a queue: the path of its directory stands behind its name. -/
def createQueue : Taking (ServCall π) := do
  let qNameLen ← takeByte 12
  takeDirName (13 + qNameLen.toNat) (14 + qNameLen.toNat) .connGetFullPath

/-- The requests about a job of a queue. -/
def takeJob (call : UInt32 → UInt16 → ServCall π) : Taking (ServCall π) := do
  let queueId ← takeBe32 10
  let jobId ← takeBe16 14
  return call queueId jobId

/-- `case 0x17` -/
def handleFunc0x17 : Taking (ServCall π) := do
  let ufunc ← takeByte 9
  match ufunc with
  | 0x14 => return .prehandled
  | 0x18 => return .prehandled
  | 0x0f => do
      let sequence ← takeBe16 10
      let searchAttrib ← takeByte 13
      takeDirName 12 14 fun dirHandle data =>
        .nwSearch dirHandle sequence (searchAttrib &&& ~~~0x10) data
  | 0x10 => do
      let info ← takeBytes 10 14
      let searchAttrib ← takeByte 89
      takeDirName 88 90 fun dirHandle data =>
        .nwSetFileInformation dirHandle data searchAttrib info
  | 0x47 => do
      let sequence ← takeBe16 11
      let id ← takeBe32 13
      let volume ← takeByte 10
      return .nwScanUserTrustee volume sequence id
  | 0x64 => createQueue
  | 0x68 => return .prehandled
  | 0x79 => return .prehandled
  | 0x6c => takeJob .getQueueJobFhandle
  | 0x7a => takeJob .getQueueJobFhandle
  | 0x69 => takeJob .closeQueueJob
  | 0x7f => takeJob .closeQueueJob
  | 0x71 => return .prehandled
  | 0x7c => return .prehandled
  | 0x72 => takeJob .finishAbortQueueJob
  | 0x73 => takeJob .finishAbortQueueJob
  | 0x83 => takeJob .finishAbortQueueJob
  | 0x84 => takeJob .finishAbortQueueJob
  | 0xf3 => return .completition 0xff
  | 0xf4 => return .completition 0xff
  | _ => return .toNwbind

/-! ## Function 0x57 -/

/-- `handle_func_0x57`; `p` stands at 8. -/
def handleFunc0x57 (task : UInt8) : Taking (ServCall π) := do
  let ufunc ← takeByte 7
  let namespaceId ← takeByte 8
  match ufunc with
  | 0x01 => do
      let opencreatmode ← takeByte 9
      let attrib ← takeLe16 10
      let infomask ← takeLe32 12
      let creatattrib ← takeLe32 16
      let accessRights ← takeLe16 20
      -- `sizeof(NW_HPATH)` has the first byte of the components
      let _nwpathstruct ← takeBytes 22 8
      -- a file that does not exist is looked for a second time, by the same bytes
      let path ← buildBase s namespaceId 22 29 false
      return .nwOpenCreatFileOrDir namespaceId opencreatmode attrib infomask creatattrib
        accessRights path task
  | 0x02 => do
      let _nwpathstruct ← takeBytes 10 8
      let path ← buildBase s namespaceId 10 17 false
      return .nwInitSearch namespaceId path
  | 0x03 => do
      let searchattrib ← takeLe16 10
      let infomask ← takeLe32 12
      let volume ← takeByte 16
      let basehandle ← takeLe32 17
      let sequence ← takeLe32 21
      let len ← takeByte 25
      nwSearchFileDir s namespaceId searchattrib infomask volume basehandle sequence len 26
  | 0x04 => do
      let renameflag ← takeByte 9
      let searchattrib ← takeLe16 10
      nwRenameFileDir s namespaceId renameflag searchattrib
  | 0x05 => do
      let searchattrib ← takeLe16 10
      let scansequence ← takeLe32 12
      let path ← buildBase s namespaceId 16 23 false
      return .nwGetTrusteeSet namespaceId searchattrib scansequence path
  | 0x06 => do
      let destnamspace ← takeByte 9
      let searchattrib ← takeLe16 10
      let infomask ← takeLe32 12
      let path ← buildBase s namespaceId 16 23 false
      return .nwOptainFileDirInfo namespaceId destnamspace searchattrib infomask path
  | 0x07 => do
      let searchattrib ← takeLe16 10
      let infomask ← takeLe32 12
      let dmi ← takeBytes 16 38
      let _nwp ← takeBytes 54 7
      let path ← buildBase s namespaceId 54 61 false
      return .nwModifyFileDir namespaceId searchattrib infomask dmi path
  | 0x08 => do
      let searchattrib ← takeLe16 10
      let path ← buildBase s namespaceId 12 19 true
      return .nwDeleteFileDir namespaceId searchattrib path
  | 0x09 => do
      let desthandle ← takeByte 10
      let path ← buildBase s namespaceId 12 19 false
      return .nwSetShortDirHandle namespaceId desthandle path task
  | 0x0a => do
      let searchattrib ← takeLe16 10
      let trusteeRights ← takeLe16 12
      let count ← takeLe16 14
      nwAddTrusteeSet s namespaceId searchattrib trusteeRights count
  | 0x0b => do
      let count ← takeLe16 10
      nwDelTrusteeSet s namespaceId count
  | 0x0c => do
      let hmode ← takeLe16 10
      let path ← buildBase s namespaceId 12 19 false
      return .nwAllocShortDirHandle namespaceId hmode path task
  | 0x14 => do
      let searchattrib ← takeLe16 10
      let infomask ← takeLe32 12
      let _count ← takeLe16 16
      let volume ← takeByte 18
      let basehandle ← takeLe32 19
      let sequence ← takeLe32 23
      let len ← takeByte 27
      nwSearchFileDir s namespaceId searchattrib infomask volume basehandle sequence len 28
  | 0x15 => do
      let dirHandle ← takeByte 9
      return .nwGetDirectoryPath dirHandle
  | 0x16 => do
      let path ← buildBase s namespaceId 12 19 false
      return .nwGenerateDirPath namespaceId path
  | 0x18 => do
      let volume ← takeByte 10
      return .getVolumeOptions volume
  | 0x1c => do
      let destnamspace ← takeByte 9
      let cookieflags ← takeLe16 10
      let cookie1 ← takeLe32 12
      let cookie2 ← takeLe32 16
      let path ← buildBase s namespaceId 20 27 false
      return .nwGetFullPathCookies namespaceId destnamspace cookieflags cookie1 cookie2 path
  | 0x1d => do
      let destnamspace ← takeByte 9
      let searchattrib ← takeLe16 10
      let infomask ← takeLe32 12
      let path ← buildBase s namespaceId 16 23 false
      return .nspGetEffRights namespaceId destnamspace searchattrib infomask path
  | _ => return .completition 0xfb

/-! ## All functions -/

/-- Lock or unlock a part of a file. -/
def takePhysicalRecord (call : UInt32 → UInt32 → UInt32 → UInt16 → ServCall π) :
    Taking (ServCall π) := do
  let fhandle ← takeLe32 10
  let offset ← takeBe32 14
  let size ← takeBe32 18
  let timeout ← takeBe16 22
  return call fhandle offset size timeout

/-- The requests about an open file that take its handle only. -/
def takeFhandle (call : UInt32 → ServCall π) : Taking (ServCall π) := do
  let fhandle ← takeLe32 10
  return call fhandle

/-- Rename files: a byte stands between the two names. -/
def renameFile : Taking (ServCall π) := do
  let dirHandle ← takeByte 7
  let searchattrib ← takeByte 8
  let len ← takeByte 9
  let destlen ← takeByte (11 + len.toNat)
  let source ← takeText 10 len.toNat
  let dest ← takeSecondName s dirHandle source (12 + len.toNat) destlen
  return .nwMvFiles searchattrib dirHandle source dest

/-- The switch of `handle_ncp_serv`, with ENABLE_BURSTMODE off. -/
def handleFunction (task function : UInt8) : Taking (ServCall π) :=
  match function with
  | 0x03 => do
      let lockFlag ← takeByte 8
      let timeout ← takeBe16 9
      takeDirName 7 11 fun dirHandle path => .nwLogFile lockFlag.toNat timeout dirHandle path
  | 0x05 => takeDirName 7 8 fun dirHandle path => .nwLogFile (-1) 0 dirHandle path
  | 0x07 => takeDirName 7 8 fun dirHandle path => .nwLogFile (-2) 0 dirHandle path
  | 0x06 => return .shareHandleLockSets 1 (-1) 0
  | 0x08 => return .shareHandleLockSets 1 (-2) 0
  | 0x09 => do
      let lockFlag ← takeByte 7
      let timeout ← takeBe16 8
      let len ← takeByte 10
      let name ← takeBytes 11 len.toNat
      return .nwLogLogicalRecord lockFlag.toNat timeout name
  | 0x0a => do
      let lockFlag ← takeByte 7
      let timeout ← takeBe16 8
      return .shareHandleLockSets 2 lockFlag.toNat timeout
  | 0x0b => do
      let len ← takeByte 7
      let name ← takeBytes 8 len.toNat
      return .nwLogLogicalRecord (-2) 0 name
  | 0x0d => return .shareHandleLockSets 2 (-1) 0
  | 0x0e => return .shareHandleLockSets 2 (-2) 0
  | 0x12 => do
      let volume ← takeByte 7
      return .nwGetVolumeName volume
  | 0x13 => return .completition 0
  | 0x14 => return .completition 0
  | 0x15 => return .toNwbind
  | 0x16 => handleFunc0x16 s task
  | 0x17 => handleFunc0x17
  | 0x18 => return .nwFreeHandles (some task)
  | 0x19 => return .nwFreeHandles none
  | 0x1a => do
      let lockFlag ← takeByte 7
      takePhysicalRecord fun fhandle offset size timeout =>
        .nwLogPhysicalRecord fhandle offset size timeout lockFlag.toNat
  | 0x1e => takePhysicalRecord fun fhandle offset size timeout =>
      .nwLogPhysicalRecord fhandle offset size timeout (-2)
  | 0x1f => return .completition 0
  | 0x20 => return .toNwbind
  | 0x21 => do
      let bufferSize ← takeBe16 7
      return .negotiateBufferSize bufferSize
  | 0x22 => do
      let ufunc ← takeByte 7
      return .completition (if ufunc = 0 then 0 else 0xfb)
  | 0x23 => return .completition 0xbf
  | 0x3b => takeFhandle .nwCommitFile
  | 0x3d => takeFhandle .nwCommitFile
  | 0x3e => takeDirName 7 8 .nwOpenDirHandle
  | 0x3f => do
      let dirId ← takeBe16 8
      let searchsequence ← takeBe16 10
      let searchAttrib ← takeByte 12
      let data ← takeName 13
      return .nwDirSearch dirId searchsequence searchAttrib data
  | 0x40 => do
      let sequence ← takeBe16 7
      let searchAttrib ← takeByte 10
      takeDirName 9 11 fun dirHandle data => .nwSearch dirHandle sequence searchAttrib data
  | 0x41 => do
      let attrib ← takeByte 8
      takeDirName 7 9 fun dirhandle data => .nwCreatOpenFile dirhandle data attrib 0x1 0 task
  | 0x42 => takeFhandle fun fhandle => .nwCloseFile fhandle task
  | 0x43 => do
      let creatAttribute ← takeByte 8
      takeDirName 7 9 fun dirhandle data =>
        .nwCreatOpenFile dirhandle data creatAttribute 0x13 1 task
  | 0x4d => do
      let creatAttribute ← takeByte 8
      takeDirName 7 9 fun dirhandle data =>
        .nwCreatOpenFile dirhandle data creatAttribute 0x13 2 task
  | 0x44 => do
      let searchattributes ← takeByte 8
      takeDirName 7 9 fun dirhandle data => .nwDeleteFiles dirhandle searchattributes data
  | 0x45 => renameFile s
  | 0x46 => do
      let access ← takeByte 7
      let attrib ← takeByte 9
      takeDirName 8 10 fun dirHandle data => .nwSetFileAttributes dirHandle data attrib access
  | 0x47 => takeFhandle .nwSeekFile
  | 0x48 => do
      let fhandle ← takeLe32 10
      let maxSize ← takeBe16 18
      let offset ← takeBe32 14
      return .nwReadFile fhandle offset maxSize
  | 0x49 => do
      let offset ← takeBe32 14
      let fhandle ← takeLe32 10
      let inputSize ← takeBe16 18
      nwWriteFile s fhandle inputSize offset 20
  | 0x4a => do
      let qfhandle ← takeLe32 10
      let zfhandle ← takeLe32 16
      let qoffset ← takeBe32 20
      let zoffset ← takeBe32 24
      let inputSize ← takeBe32 28
      return .nwServerCopy qfhandle zfhandle qoffset zoffset inputSize
  | 0x4b => do
      let fhandle ← takeLe32 10
      nwSetFdateTime s fhandle
  | 0x4c => do
      let attrib ← takeByte 8
      let access ← takeByte 9
      takeDirName 7 10 fun dirhandle data => .nwCreatOpenFile dirhandle data attrib access 0 task
  | 0x56 => do
      let ufunc ← takeByte 7
      return .handleFunc0x56 ufunc
  | 0x57 => handleFunc0x57 s task
  | _ => return .completition 0xfb

/-- `handle_ncp_serv` -/
def handleNcpServ : Taking (ServCall π) := do
  let ncpType ← takeBe16 0
  let sequence ← takeByte 2
  let task ← takeByte 4
  let function ← takeByte 6
  if s.lastSequence = sequence.toNat ∧ ncpType ≠ 0x1111 then return .sendAgain
  else if ncpType = 0x2222 then handleFunction s task function
  else if ncpType = 0x1111 then return .nwInitConnect
  else return .completition 0xfb

end MarsNwe.RequestInput
