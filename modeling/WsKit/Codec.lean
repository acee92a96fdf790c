import WsKit.Base.Str
import WsKit.Base.Outcome

/-!
# Frames and errors

The wire message of `src/codec.rs` and the error variants of `src/error.rs`. A text frame
holds a string, so its bytes are valid UTF-8; a binary frame holds arbitrary bytes.
-/

namespace WsKit

open Base

/-- The failures the crate reports. -/
inductive WsError where
  | authMissing
  | authInvalid
  | tooManyConnections
  | broadcastFull
  | invalidMessage
  | compression
  | payloadTooLarge
  | redis (message : Str)
  | closed
  deriving DecidableEq

/-- A wire message: a text or a binary data frame. -/
inductive Frame where
  | text (s : Str)
  | binary (b : Bytes)
  deriving DecidableEq

namespace Frame

/-- Payload length in bytes. -/
def len : Frame → ℕ
  | text s => byteLen s
  | binary b => b.length

/-- True for a text frame. -/
def isText : Frame → Bool
  | text _ => true
  | binary _ => false

/-- True for a binary frame. -/
def isBinary : Frame → Bool
  | text _ => false
  | binary _ => true

/-- Payload as bytes. -/
def asBytes : Frame → Bytes
  | text s => utf8 s
  | binary b => b

/-- Take the payload as owned bytes. -/
def intoBytes : Frame → Bytes
  | text s => utf8 s
  | binary b => b

/-- The reported length is the length of the payload. -/
theorem length_asBytes (frame : Frame) : frame.asBytes.length = frame.len := by
  cases frame with
  | text s => exact length_utf8 s
  | binary b => rfl

end Frame

end WsKit
