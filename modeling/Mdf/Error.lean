import Mdf.Block.Id
import Mdf.Text.Numeral

/-!
# Errors

`Error` has one constructor per cause, and `Error.message` holds every wording.  A construct of the
format that this library does not handle is a `Feature`.  `Fault` is a violated precondition inside
the library, such as a slice that leaves its sequence; `Failure` is either.
-/

namespace Mdf

/-- Constructs of the format outside of the subset that is handled. -/
inductive Feature where
  /-- Byte order or float format other than the default. -/
  | byteOrder
  /-- A file that its writer did not finish. -/
  | unfinalized
  /-- Records with ids in front. -/
  | recordIds
  /-- A channel group that holds values of variable length. -/
  | vlsdGroup
  /-- A data group with more than one channel group. -/
  | severalChannelGroups
  /-- Records with invalidation bits. -/
  | invalidationBytes
  /-- Records without bytes. -/
  | emptyRecords
  /-- A channel made of other channels. -/
  | composition
  /-- A channel with a conversion rule. -/
  | conversion
  /-- A channel whose values have variable length. -/
  | signalData
  /-- A channel that starts within a byte. -/
  | bitOffset
  /-- A group with two master channels. -/
  | severalMasters
  /-- Records spread over a list of blocks. -/
  | dataList
  /-- A compressed block of something other than records. -/
  | wrapped (kind : String)
  /-- Data groups whose time axes differ. -/
  | differingGroupAxes
  /-- Channels of one session whose time axes differ. -/
  | differingChannelAxes
  /-- Compressed records in a revision that does not know them. -/
  | compressedRecords (version : String)
  /-- A record whose size does not fit its field. -/
  | recordSize
  /-- Any other construct, by its description. -/
  | other (description : String)
deriving DecidableEq, Repr

/-- What a message says of the construct. -/
def Feature.description : Feature → String
  | byteOrder => "non-default byte order or float format"
  | unfinalized => "unfinalized files"
  | recordIds => "record ids (unsorted data groups)"
  | vlsdGroup => "VLSD channel groups"
  | severalChannelGroups => "multiple channel groups per data group"
  | invalidationBytes => "invalidation bytes"
  | emptyRecords => "zero-length records"
  | composition => "channel composition"
  | conversion => "channel conversion rules"
  | signalData => "VLSD / signal data channels"
  | bitOffset => "bit offsets within a byte"
  | severalMasters => "more than one master channel"
  | dataList => "data lists (##DL / ##HL)"
  | wrapped kind => "##DZ wrapping ##" ++ kind
  | differingGroupAxes => "data groups with differing time axes"
  | differingChannelAxes => "channels with differing time axes in one session"
  | compressedRecords version =>
    "##DZ blocks need MDF 4.10 or newer, session writes " ++ version
  | recordSize => "record larger than 4 GiB"
  | other description => description

/-- Why compressed records cannot be restored. -/
inductive DecompressionError where
  /-- The stream has a defect. -/
  | corrupt
  /-- No memory holds what the stream inflates to. -/
  | outOfMemory
  /-- The block names a compression that does not exist. -/
  | unknownType (zipType : Nat)
  /-- The stream holds more or fewer bytes than the block declares. -/
  | wrongLength (inflated declared : Nat)
deriving DecidableEq, Repr

def DecompressionError.message : DecompressionError → String
  | corrupt => "corrupt deflate stream"
  | outOfMemory => "out of memory"
  | unknownType zipType => s!"unknown zip type {zipType}"
  | wrongLength inflated declared => s!"inflated {inflated} bytes, block declares {declared}"

/-- Why a comment is not well formed. -/
inductive MetadataError where
  /-- The markup breaks off or is misnested. -/
  | malformed
  /-- A reference to an entity that is not predefined. -/
  | unknownEntity (name : String)
  /-- The text ends inside of an element; the name is that of the outermost open one. -/
  | unclosedElement (name : String)
  /-- There is no element, or the first one has no name. -/
  | noRoot
deriving DecidableEq, Repr

def MetadataError.message : MetadataError → String
  | malformed => "malformed markup"
  | unknownEntity name => "unknown entity &" ++ name ++ ";"
  | unclosedElement name => "unclosed element <" ++ name ++ ">"
  | noRoot => "no root element"

/-- Whatever ends the building, writing, reading or exporting of a file. -/
inductive Error where
  /-- A revision other than the supported ones. -/
  | unsupportedVersion (text : String)
  /-- The file declares another revision than expected. -/
  | versionMismatch (expected found : String)
  /-- The file does not start as a measurement file. -/
  | invalidMagic
  /-- A link leads to a block of another type. -/
  | unexpectedBlock (expected : BlockId) (found : List UInt8)
  /-- A block announces fewer links or bytes than it must have. -/
  | blockTooShort (block : BlockId) (required found : Nat)
  /-- The input ends within a block. -/
  | prematureEnd (offset : Nat)
  /-- A link leads out of the file, or back to a block of its own chain. -/
  | invalidLink (target : Nat)
  /-- A data type and bit count that no kind has. -/
  | unsupportedDataType (dataType bitCount : Nat)
  /-- A construct outside of the handled subset. -/
  | unsupportedFeature (feature : Feature)
  /-- Two channels of one name. -/
  | duplicateChannel (name : String)
  /-- A channel with more or fewer samples than the time axis. -/
  | lengthMismatch (channel : String) (expected found : Nat)
  /-- A time axis that does not increase at an index. -/
  | nonMonotonicTimeAxis (index : Nat)
  | emptyFixture
  /-- The output exists and may not be replaced. -/
  | outputExists (path : String)
  /-- Records that could not be compressed. -/
  | compression (detail : String)
  /-- Records that could not be restored. -/
  | decompression (cause : DecompressionError)
  /-- A comment that is not well formed. -/
  | invalidMetadata (cause : MetadataError)
  /-- An export format of another name. -/
  | unknownExportFormat (name : String)
  | file (detail : String)
deriving DecidableEq, Repr

def Error.message : Error → String
  | unsupportedVersion text => s!"unsupported MDF format version '{text}'"
  | versionMismatch expected found =>
    s!"MDF version mismatch: expected {expected}, file declares {found}"
  | invalidMagic => "not an MDF file: missing 'MDF     ' identification"
  | unexpectedBlock expected found =>
    s!"expected block {expected.text}, found '{Utf8.decodeLossy found}'"
  | blockTooShort block required found =>
    s!"{block.text} block too short: requires {required}, found {found}"
  | prematureEnd offset => s!"premature end of data at offset {Numeral.hex offset}"
  | invalidLink target => s!"link {Numeral.hex target} points outside the file"
  | unsupportedDataType dataType bitCount =>
    s!"unsupported channel data type {dataType} with {bitCount} bits"
  | unsupportedFeature feature => "unsupported MDF feature: " ++ feature.description
  | duplicateChannel name => s!"duplicate channel name '{name}'"
  | lengthMismatch channel expected found =>
    s!"channel '{channel}' has {found} samples, time axis has {expected}"
  | nonMonotonicTimeAxis index => s!"time axis not strictly increasing at index {index}"
  | emptyFixture => "fixture set contains no channels"
  | outputExists path => s!"output '{path}' exists and overwrite is disabled"
  | compression detail => "deflate compression failed: " ++ detail
  | decompression cause => "##DZ decompression failed: " ++ cause.message
  | invalidMetadata cause => "invalid ##MD metadata: " ++ cause.message
  | unknownExportFormat name => s!"unknown export format '{name}'"
  | file detail => "IO error: " ++ detail

instance : ToString Error := ⟨Error.message⟩

/-- A violated precondition inside the library. -/
inductive Fault where
  /-- A slice that leaves a sequence of `size` elements. -/
  | slice (start stop size : Nat)
  /-- An element that a sequence of `size` elements does not have. -/
  | index (i size : Nat)
  /-- A division into pieces without elements. -/
  | emptyPieces
  /-- A sum or a product that does not fit 64 bits. -/
  | overflow (result : Nat)
  /-- A difference below zero. -/
  | underflow (minuend subtrahend : Nat)
  /-- A buffer of more bytes than memory holds. -/
  | capacity (size : Nat)
  /-- Bytes copied onto a field of another width. -/
  | width (expected found : Nat)
  /-- Eight bytes patched beyond the end of a buffer. -/
  | patch (offset size : Nat)
deriving DecidableEq, Repr

def Fault.message : Fault → String
  | slice start stop size => s!"slice from {start} to {stop} of {size} elements"
  | index i size => s!"index {i} of {size} elements"
  | emptyPieces => "pieces of no elements"
  | overflow result => s!"{result} does not fit 64 bits"
  | underflow minuend subtrahend => s!"{subtrahend} subtracted from {minuend}"
  | capacity size => s!"buffer of {size} bytes"
  | width expected found => s!"field of {found} bytes for {expected} bytes"
  | patch offset size => s!"patch at {Numeral.hex offset} beyond length {Numeral.hex size}"

/-- An error, or a fault. -/
inductive Failure where
  /-- The input or its use is refused. -/
  | error (e : Error)
  /-- The library breaks a rule of its own. -/
  | fault (f : Fault)
deriving DecidableEq, Repr

def Failure.message : Failure → String
  | error e => e.message
  | fault f => f.message

/-- What may be refused is also what may fail. -/
instance : MonadLift (Except Error) (Except Failure) where
  monadLift
    | .ok a => .ok a
    | .error e => .error (.error e)

/-- A check of a precondition may fail. -/
instance : MonadLift (Except Fault) (Except Failure) where
  monadLift
    | .ok a => .ok a
    | .error f => .error (.fault f)

end Mdf
