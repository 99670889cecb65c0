/-
  PassiveDns.FileFault

  What goes wrong with files, and the words in which a system reports it.
-/

namespace PassiveDns

/-- What goes wrong with a file. -/
inductive FileFault where
  | notFound
  | notADirectory
  | isADirectory
  | noSpace
  | nameTooLong
  | tooShort
  | notText
  | other (reason : String)
deriving Repr, DecidableEq, Inhabited

/-- What is reported for each fault. -/
def FileFault.message : FileFault → String
  | notFound => "No such file or directory (os error 2)"
  | notADirectory => "Not a directory (os error 20)"
  | isADirectory => "Is a directory (os error 21)"
  | noSpace => "No space left on device (os error 28)"
  | nameTooLong => "File name too long (os error 36)"
  | tooShort => "failed to fill whole buffer"
  | notText => "stream did not contain valid UTF-8"
  | other reason => reason

end PassiveDns
