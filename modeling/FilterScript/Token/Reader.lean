import FilterScript.Token.Stream

/-! # Reading tokens one by one

A reader scans a source on demand. Tokens that were only looked at wait in a
buffer until they are taken; flaws are never kept, they are reported to
whichever call meets them and scanning goes on behind them.
-/

namespace FilterScript

/-- A place in a source and the tokens that were scanned ahead of it. -/
structure Reader where
  cursor : Cursor
  length : Nat
  buffer : List Token
deriving Repr

namespace Reader

def ofSource (source : String) : Reader :=
  ⟨Cursor.ofSource source, byteLength source.toList, []⟩

/-- Scan one more token behind the buffer. -/
def scan (reader : Reader) : Scan × Reader :=
  match reader.cursor.scan with
  | none => (.ok (Token.atEnd reader.length), reader)
  | some (result, cursor) => (result, { reader with cursor })

/-- Take the next token: the oldest of the buffer, else a new one. -/
def next (reader : Reader) : Scan × Reader :=
  match reader.buffer with
  | token :: rest => (.ok token, { reader with buffer := rest })
  | [] => reader.scan

/-- Scan tokens into the buffer, at most the given number, up to a flaw. -/
def fill : Nat → Reader → Except Flaw Unit × Reader
  | 0, reader => (.ok (), reader)
  | missing + 1, reader =>
      match reader.scan with
      | (.ok token, reader) => fill missing { reader with buffer := reader.buffer ++ [token] }
      | (.error flaw, reader) => (.error flaw, reader)

/-- Look at the token after `ahead` others without taking any. -/
def peekAt (reader : Reader) (ahead : Nat) : Scan × Reader :=
  match reader.fill (ahead + 1 - reader.buffer.length) with
  | (.ok (), reader) => (.ok (reader.buffer[ahead]?.getD (Token.atEnd reader.length)), reader)
  | (.error flaw, reader) => (.error flaw, reader)

/-- Whether the next token is of this kind, whatever its text. -/
def check (reader : Reader) (kind : Kind) : Except Flaw Bool × Reader :=
  match reader.peekAt 0 with
  | (.ok token, reader) => (.ok (token.kind.variant == kind.variant), reader)
  | (.error flaw, reader) => (.error flaw, reader)

/-- Take tokens and flaws until the end is reached, the end included, but no
more than the given number. -/
def drain : Nat → Reader → List Scan × Reader
  | 0, reader => ([], reader)
  | most + 1, reader =>
      match reader.next with
      | (.ok token, reader) =>
          if token.kind = .endOfFile then ([.ok token], reader)
          else
            let (others, reader) := drain most reader
            (.ok token :: others, reader)
      | (.error flaw, reader) =>
          let (others, reader) := drain most reader
          (.error flaw :: others, reader)

end Reader

end FilterScript
