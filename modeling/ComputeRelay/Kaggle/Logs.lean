import Mathlib.Tactic
import ComputeRelay.Lib.Fallible
import ComputeRelay.Lib.Lines
import ComputeRelay.Lib.Scan

/-!
# Log pages of a kernel

`internal/provider/kaggle/kaggleapi/logs.go`: a page of a log is read by replaying the log from its
start. The decoder puts the texts of the events together to lines, redacts each line, and hashes and
counts what it has redacted up to the offset of the page; what follows goes into the page, up to a
number of bytes and of lines.

Texts are lists of characters, and sizes are those of their UTF-8 encoding. An event is the text of
its field `data`; that a read sees only some of the events stands for every way in which a stream
can be interrupted.
-/

namespace ComputeRelay
namespace Kaggle

open Fallible Scan

/-- `MaxLogBytes` -/
def maxLogBytes : ℕ := 64 * 2 ^ 10

def maxLogInput : ℕ := 32 * 2 ^ 20

def maxLogEvent : ℕ := 64 * 2 ^ 10

def maxLogEvents : ℕ := 100000

inductive LogErr
  | config | response | transport
  /-- `ErrLogChanged` -/
  | changed
  deriving DecidableEq

/-- `LogRequest` -/
structure LogRequest where
  offset : ℕ := 0
  logPrefix : String := ""
  lineLimit : ℕ := 100
  deriving DecidableEq

/-- The bytes of a text. -/
def byteSize (t : List Char) : ℕ := (t.map Char.utf8Size).sum

/-! ### Redaction -/

/-- A letter of the pattern under `(?i)`: `k` and `s` have a third form. -/
def folds (c b : Char) : Bool :=
  b.toLower = c.toLower || (c.toLower = 'k' && b = 'K') || (c.toLower = 's' && b = 'ſ')

def word (s : String) : Matcher Char := each (s.toList.map folds)

def oneOf (s : String) : Char → Bool := fun b => s.toList.any fun c => folds c b

/-- `[A-Za-z0-9]` under `(?i)` -/
def alphanumeric (b : Char) : Bool := b.isAlphanum || b = 'K' || b = 'ſ'

/-- What is neither white space nor a quotation mark. -/
def valueChar (b : Char) : Bool := !([9, 10, 12, 13, 32, 34, 39] : List ℕ).contains b.toNat

/-- `logSecret`. What follows a repetition in it never begins with what is repeated, so no
repetition gives anything back. -/
def logSecret : Matcher Char :=
  orElse (seq (word "cr1_") (run (fun b => alphanumeric b || oneOf "_-" b) 43 (some 43)))
    (orElse
      (seq (word "gh")
        (seq (each [oneOf "pousr"]) (seq (word "_") (run alphanumeric 20 (some 255)))))
      (seq
        (orElse
          (seq (word "authorization")
            (seq (run (oneOf "=: ") 1 none) (seq (word "bearer") (run (oneOf " ") 1 none))))
          (seq
            (orElse (seq (word "api") (seq (run (oneOf "_-") 0 (some 1)) (word "key")))
              (orElse (word "token") (orElse (word "password") (word "secret"))))
            (seq (each [oneOf "=:"]) (run (oneOf " ") 0 none))))
        (run valueChar 1 (some 512))))

/-- `strings.ReplaceAll`, of a text that is not empty. -/
def replaceAll (text old new : List Char) : List Char :=
  sub (each (old.map fun c b => b == c)) new 0 text

def redacted : List Char := "[REDACTED]".toList

/-- What `accept` makes of a line. -/
def redact (token text : List Char) : List Char :=
  sub logSecret redacted 0 (replaceAll text token redacted)

/-- `validToken`, of a credential in ASCII. -/
def validToken (token : List Char) : Bool :=
  !token.isEmpty && token.all fun c => 33 ≤ c.toNat && c.toNat ≤ 126

/-! ### The decoder -/

/-- `validDigest` -/
def validDigest (text : String) : Bool :=
  text.length = 64 && text.toList.all fun c => ('0' ≤ c && c ≤ '9') || ('a' ≤ c && c ≤ 'f')

/-- SHA-256 in hexadecimal, of the bytes of a text. -/
structure LogDigest where
  sum : List Char → String
  valid : ∀ t, validDigest (sum t) = true

/-- `logDecoder`; `digest` is what its hash has read. -/
structure LogDecoder where
  page : LogRequest
  token : List Char
  digest : List Char := []
  consumed : ℕ := 0
  matched : Bool
  output : List Char := []
  pending : List Char := []
  events : ℕ := 0
  lines : ℕ := 0
  ended : Bool := false
  truncated : Bool := false
  deriving DecidableEq

variable (H : LogDigest)

def newLogDecoder (page : LogRequest) (token : List Char) : LogDecoder :=
  { page, token, matched := page.offset = 0 && (page.logPrefix = "" || page.logPrefix = H.sum []) }

namespace LogDecoder

/-- `accept`, with whether there may be more. -/
def accept (d : LogDecoder) (text : List Char) : Except LogErr (Bool × LogDecoder) :=
  let data := redact d.token text
  if (d.page.offset ≤ d.consumed && maxLogBytes < byteSize d.output + byteSize data) ||
      maxLogInput < d.consumed + byteSize data then pure (false, { d with truncated := true })
  else
    let d := { d with digest := d.digest ++ data, consumed := d.consumed + byteSize data }
    if d.consumed < d.page.offset then pure (true, d)
    else if d.consumed = d.page.offset then
      if H.sum d.digest ≠ d.page.logPrefix then .error .changed
      else pure (true, { d with matched := true })
    else if !d.matched then .error .changed
    else
      let d := { d with output := d.output ++ data, lines := d.lines + data.count '\n' }
      pure (d.lines < d.page.lineLimit, d)

/-- The loop of `event` over the lines that are complete. -/
def drain (d : LogDecoder) : List (List Char) → List Char → Except LogErr (Bool × LogDecoder)
  | [], rest => pure (true, { d with pending := rest })
  | l :: ls, rest => do
    let (more, d) ← accept H { d with pending := (ls.map (· ++ ['\n'])).flatten ++
      rest } (l ++ ['\n'])
    if more then drain d ls rest else pure (false, d)

/-- The ends of lines of one event. -/
def normalize (text : List Char) : List Char :=
  replaceAll (replaceAll text ['\r', '\n'] ['\n']) ['\r'] ['\n']

/-- `event` -/
def event (d : LogDecoder) (text : List Char) : Except LogErr (Bool × LogDecoder) :=
  if maxLogEvents ≤ d.events then pure (false, { d with truncated := true })
  else
    let pending := d.pending ++ normalize text
    if maxLogEvent < byteSize pending then .error .response
    else
      let (lines, rest) := Lines.cut '\n' pending
      drain H { d with events := d.events + 1 } lines rest

/-- `finish` -/
def finish (d : LogDecoder) : Except LogErr LogDecoder := do
  let d := { d with ended := true }
  if d.pending = [] then pure d
  else do
    let (_, d) ← accept H d (d.pending ++ ['\n'])
    pure { d with pending := [] }

/-- `sse` and `completed`, over the events that the read sees: they are followed by the end of the
log, or by an interruption. -/
def decode (finished : Bool) (d : LogDecoder) : List (List Char) → Except LogErr LogDecoder
  | [] => if finished then finish H d else pure d
  | t :: ts => do
    let (more, d) ← event H d t
    if more then decode finished d ts else pure d

end LogDecoder

/-! ### Reading a page -/

inductive KernelState
  | complete | error | other
  deriving DecidableEq

/-- `LogReplay` -/
structure LogReplay where
  text : List Char
  offset : ℕ
  logPrefix : String
  availability : String
  truncated : Bool
  ended : Bool
  deriving DecidableEq

/-- The checks of `ReadLogs` on a request. -/
def LogRequest.valid (page : LogRequest) : Bool :=
  page.offset ≤ maxLogInput && 1 ≤ page.lineLimit && page.lineLimit ≤ 100 &&
    (page.offset = 0 || page.logPrefix ≠ "") && (page.logPrefix = "" || validDigest page.logPrefix)

/-- `ReadLogs`, of a client with a token, on the events that its request sees. -/
def readLogs (token : List Char) (state : KernelState) (page : LogRequest)
    (events : List (List Char)) (finished : Bool) : Except LogErr LogReplay := do
  let page := if page.lineLimit = 0 then { page with lineLimit := 100 } else page
  ensure page.valid .config
  let d ← LogDecoder.decode H finished (newLogDecoder H page token) events
  ensure d.matched (if d.ended then .changed else .transport)
  let availability :=
    if state = .complete || state = .error then
      if !d.ended && d.output.isEmpty then "delayed" else "after_completion"
    else "live"
  pure ⟨d.output, d.consumed, H.sum d.digest, availability, d.truncated, d.ended⟩

end Kaggle
end ComputeRelay
