import ScriptEngine.Text
/-!
# The release
-/

namespace ScriptEngine

/-- What identifies a release. -/
structure Release where
  name : Text
  description : Text
  version : Text
  buildDate : Text
  commit : Text

namespace Release

/-- The present release. -/
def current : Release where
  name := "ebs"
  description := "Run and inspect ebscript programs"
  version := "0.1.0-dev"
  buildDate := "unknown"
  commit := "unknown"

/-- The name with the version. -/
def title (r : Release) : Text := r.name ++ " " ++ r.version

/-- A release on one line. -/
def banner (r : Release) : Text := r.title ++ " (" ++ r.commit ++ ", built " ++ r.buildDate ++ ")"

/-- A release on three lines. -/
def report (r : Release) : Text :=
  r.title ++ "\nBuild Date: " ++ r.buildDate ++ "\nGit Commit: " ++ r.commit ++ "\n"

end Release

end ScriptEngine
