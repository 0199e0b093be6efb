import Restage.Text.Basic

/-!
Notes that the steps of a migration leave. `Traced` is a result together with the notes made on
the way to it; a step that fails keeps the notes made before.
-/

set_option autoImplicit false

namespace Restage

inductive Level where
  | debug | info | warning | error
deriving DecidableEq, Repr

namespace Level

def label : Level → String
  | debug => "DEBUG"
  | info => "INFO"
  | warning => "WARNING"
  | error => "ERROR"

def rank : Level → Nat
  | debug => 10
  | info => 20
  | warning => 30
  | error => 40

end Level

/-- The part of the work that a note is about. -/
inductive Channel where
  | landmarks | classes | references | module | batch | shapes
deriving DecidableEq, Repr

def Channel.label : Channel → String
  | landmarks => "extractors.manifest"
  | classes => "rewriters.classes"
  | references => "rewriters.references"
  | module => "emitter"
  | batch => "orchestrator"
  | shapes => "shapes"

structure Note where
  level : Level
  channel : Channel
  message : String
  /-- the file that the note is about, when it was made for one -/
  source : Option String
deriving DecidableEq, Repr

namespace Note

def plain (level : Level) (channel : Channel) (message : String) : Note :=
  ⟨level, channel, message, none⟩

/-- A note about a file: its message begins with the file. -/
def about (source : String) (level : Level) (channel : Channel) (message : String) : Note :=
  ⟨level, channel, source ++ ": " ++ message, some source⟩

end Note

/-- A result with the notes made on the way to it. -/
structure Traced (ε α : Type) where
  notes : List Note
  result : Except ε α

namespace Traced

variable {ε α β : Type}

def ok (a : α) : Traced ε α := ⟨[], .ok a⟩

def fail (e : ε) : Traced ε α := ⟨[], .error e⟩

def note (n : Note) : Traced ε Unit := ⟨[n], .ok ()⟩

def noteAll (ns : List Note) : Traced ε Unit := ⟨ns, .ok ()⟩

def ofExcept (r : Except ε α) : Traced ε α := ⟨[], r⟩

def andThen (x : Traced ε α) (f : α → Traced ε β) : Traced ε β :=
  match x.result with
  | .error e => ⟨x.notes, .error e⟩
  | .ok a => ⟨x.notes ++ (f a).notes, (f a).result⟩

instance : Monad (Traced ε) where
  pure := ok
  bind := andThen

end Traced
end Restage
