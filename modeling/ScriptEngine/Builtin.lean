import ScriptEngine.Signature
/-!
# The builtins and their signatures

The builtins of the script language by category, and the contract of each. The names of a category
share the word before the dot.
-/

namespace ScriptEngine

open Signature (required optional number)

/-- Operations on text. -/
inductive StrOp where
  | toUpper | toLower | trim | length | substring | indexOf | lastIndexOf | contains
  | startsWith | endsWith | replace | replaceAll | split | join | lpad | rpad | charAt
  | isEmpty | isBlank | equals | equalsIgnoreCase | toString | encode | decode
deriving DecidableEq, Repr

namespace StrOp

/-- Every operation of the category. -/
def all : List StrOp :=
  [toUpper, toLower, trim, length, substring, indexOf, lastIndexOf, contains, startsWith,
    endsWith, replace, replaceAll, split, join, lpad, rpad, charAt, isEmpty, isBlank, equals,
    equalsIgnoreCase, toString, encode, decode]

/-- The contract of an operation. -/
def signature : StrOp → Signature
  | toUpper => ⟨"str.toupper", .string, [required "value" .string]⟩
  | toLower => ⟨"str.tolower", .string, [required "value" .string]⟩
  | trim => ⟨"str.trim", .string, [required "value" .string]⟩
  | length => ⟨"str.length", .int, [required "value" .string]⟩
  | substring => ⟨"str.substring", .string,
    [required "value" .string, required "start" .int, optional "end" .int]⟩
  | indexOf => ⟨"str.indexof", .int,
    [required "value" .string, required "find" .string, optional "from" .int]⟩
  | lastIndexOf => ⟨"str.lastindexof", .int, [required "value" .string, required "find" .string]⟩
  | contains => ⟨"str.contains", .bool, [required "value" .string, required "find" .string]⟩
  | startsWith => ⟨"str.startswith", .bool, [required "value" .string, required "prefix" .string]⟩
  | endsWith => ⟨"str.endswith", .bool, [required "value" .string, required "suffix" .string]⟩
  | replace => ⟨"str.replace", .string,
    [required "value" .string, required "find" .string, required "with" .string]⟩
  | replaceAll => ⟨"str.replaceall", .string,
    [required "value" .string, required "pattern" .string, required "with" .string]⟩
  | split => ⟨"str.split", .array, [required "value" .string, optional "separator" .string]⟩
  | join => ⟨"str.join", .string, [required "items" .array, optional "separator" .string]⟩
  | lpad => ⟨"str.lpad", .string,
    [required "value" .string, required "length" .int, optional "pad" .string]⟩
  | rpad => ⟨"str.rpad", .string,
    [required "value" .string, required "length" .int, optional "pad" .string]⟩
  | charAt => ⟨"str.charat", .string, [required "value" .string, required "index" .int]⟩
  | isEmpty => ⟨"str.isempty", .bool, [optional "value" .string]⟩
  | isBlank => ⟨"str.isblank", .bool, [optional "value" .string]⟩
  | equals => ⟨"str.equals", .bool, [optional "a" .string, optional "b" .string]⟩
  | equalsIgnoreCase => ⟨"str.equalsignorecase", .bool,
    [optional "a" .string, optional "b" .string]⟩
  | toString => ⟨"str.tostring", .string, [optional "value" .any]⟩
  | encode => ⟨"str.encode", .byteArray, [required "value" .string, optional "charset" .string]⟩
  | decode => ⟨"str.decode", .string, [required "bytes" .array, optional "charset" .string]⟩

end StrOp

/-- Operations on json values. -/
inductive JsonOp where
  | ofString | toString | get | getString | getInt | getLong | getDouble | getBool
  | set | add | remove | isEmpty | size | keys | fromYaml | toYaml
deriving DecidableEq, Repr

namespace JsonOp

/-- Every operation of the category. -/
def all : List JsonOp :=
  [ofString, toString, get, getString, getInt, getLong, getDouble, getBool, set, add, remove,
    isEmpty, size, keys, fromYaml, toYaml]

/-- The contract of an operation. -/
def signature : JsonOp → Signature
  | ofString => ⟨"json.jsonfromstring", .json, [required "text" .string]⟩
  | toString => ⟨"json.tostring", .string, [required "value" .json, optional "pretty" .bool]⟩
  | get => ⟨"json.get", .any,
    [required "value" .json, required "path" .string, optional "default" .any]⟩
  | getString => ⟨"json.getstring", .string,
    [required "value" .json, required "path" .string, optional "default" .string]⟩
  | getInt => ⟨"json.getint", .int,
    [required "value" .json, required "path" .string, optional "default" .int]⟩
  | getLong => ⟨"json.getlong", .long,
    [required "value" .json, required "path" .string, optional "default" .long]⟩
  | getDouble => ⟨"json.getdouble", .double,
    [required "value" .json, required "path" .string, optional "default" .double]⟩
  | getBool => ⟨"json.getbool", .bool,
    [required "value" .json, required "path" .string, optional "default" .bool]⟩
  | set => ⟨"json.set", .json,
    [required "value" .json, required "path" .string, optional "item" .any]⟩
  | add => ⟨"json.add", .json, [required "value" .json, optional "item" .any]⟩
  | remove => ⟨"json.remove", .bool, [required "value" .json, required "path" .string]⟩
  | isEmpty => ⟨"json.isempty", .bool, [optional "value" .json]⟩
  | size => ⟨"json.size", .int, [required "value" .json]⟩
  | keys => ⟨"json.keys", .array, [required "value" .json]⟩
  | fromYaml => ⟨"json.fromyaml", .json, [required "text" .string]⟩
  | toYaml => ⟨"json.toyaml", .string, [required "value" .json]⟩

end JsonOp

/-- Operations on arrays. -/
inductive ArrayOp where
  | fill | sort | expand | length | push | contains | base64Encode | base64Decode
deriving DecidableEq, Repr

namespace ArrayOp

/-- Every operation of the category. -/
def all : List ArrayOp :=
  [fill, sort, expand, length, push, contains, base64Encode, base64Decode]

/-- The contract of an operation. -/
def signature : ArrayOp → Signature
  | fill => ⟨"array.fill", .null,
    [required "array" .array, required "length" .int, optional "value" .any]⟩
  | sort => ⟨"array.sort", .null, [required "array" .array, optional "ascending" .bool]⟩
  | expand => ⟨"array.expand", .null, [required "array" .array, required "length" .int]⟩
  | length => ⟨"array.length", .int, [required "array" .array]⟩
  | push => ⟨"array.push", .int, [required "array" .array, optional "value" .any]⟩
  | contains => ⟨"array.contains", .bool, [required "array" .array, optional "value" .any]⟩
  | base64Encode => ⟨"array.base64encode", .string, [required "bytes" .array]⟩
  | base64Decode => ⟨"array.base64decode", .byteArray, [required "b64" .string]⟩

end ArrayOp

/-- Operations on queues. -/
inductive QueueOp where
  | enqueue | dequeue | peek | size | isEmpty | clear
deriving DecidableEq, Repr

namespace QueueOp

/-- Every operation of the category. -/
def all : List QueueOp :=
  [enqueue, dequeue, peek, size, isEmpty, clear]

/-- The contract of an operation. -/
def signature : QueueOp → Signature
  | enqueue => ⟨"queue.enqueue", .int, [required "queue" .queue, optional "value" .any]⟩
  | dequeue => ⟨"queue.dequeue", .any, [required "queue" .queue]⟩
  | peek => ⟨"queue.peek", .any, [required "queue" .queue]⟩
  | size => ⟨"queue.size", .int, [required "queue" .queue]⟩
  | isEmpty => ⟨"queue.isempty", .bool, [required "queue" .queue]⟩
  | clear => ⟨"queue.clear", .null, [required "queue" .queue]⟩

end QueueOp

/-- Operations on dates. -/
inductive DateOp where
  | now | format | parse | addDays | diffDays | toMillis
deriving DecidableEq, Repr

namespace DateOp

/-- Every operation of the category. -/
def all : List DateOp :=
  [now, format, parse, addDays, diffDays, toMillis]

/-- The contract of an operation. -/
def signature : DateOp → Signature
  | now => ⟨"date.now", .date, []⟩
  | format => ⟨"date.format", .string, [required "date" .date, optional "format" .string]⟩
  | parse => ⟨"date.parse", .date, [required "text" .string, optional "format" .string]⟩
  | addDays => ⟨"date.adddays", .date, [required "date" .date, required "days" .int]⟩
  | diffDays => ⟨"date.diffdays", .long, [required "from" .date, required "to" .date]⟩
  | toMillis => ⟨"date.tomillis", .long, [required "date" .date]⟩

end DateOp

/-- Operations on numbers. -/
inductive MathOp where
  | abs | min | max | sqrt | pow | round | floor | ceil | random
deriving DecidableEq, Repr

namespace MathOp

/-- Every operation of the category. -/
def all : List MathOp :=
  [abs, min, max, sqrt, pow, round, floor, ceil, random]

/-- The contract of an operation. -/
def signature : MathOp → Signature
  | abs => ⟨"math.abs", .any, [number "value"]⟩
  | min => ⟨"math.min", .any, [number "a", number "b"]⟩
  | max => ⟨"math.max", .any, [number "a", number "b"]⟩
  | sqrt => ⟨"math.sqrt", .double, [required "value" .double]⟩
  | pow => ⟨"math.pow", .double, [required "base" .double, required "exponent" .double]⟩
  | round => ⟨"math.round", .long, [required "value" .double]⟩
  | floor => ⟨"math.floor", .long, [required "value" .double]⟩
  | ceil => ⟨"math.ceil", .long, [required "value" .double]⟩
  | random => ⟨"math.random", .any, [optional "min" .long, optional "max" .long]⟩

end MathOp

/-- Looking at the running script. -/
inductive DebugOp where
  | vars | stack | log | assert | assertEquals | memUsage
deriving DecidableEq, Repr

namespace DebugOp

/-- Every operation of the category. -/
def all : List DebugOp :=
  [vars, stack, log, assert, assertEquals, memUsage]

/-- The contract of an operation. -/
def signature : DebugOp → Signature
  | vars => ⟨"debug.vars", .json, []⟩
  | stack => ⟨"debug.stack", .json, []⟩
  | log => ⟨"debug.log", .bool, [optional "level" .string, required "message" .string]⟩
  | assert => ⟨"debug.assert", .bool, [optional "condition" .bool, optional "message" .string]⟩
  | assertEquals => ⟨"debug.assertequals", .bool,
    [optional "expected" .any, optional "actual" .any, optional "message" .string]⟩
  | memUsage => ⟨"debug.memusage", .json, [optional "unit" .string]⟩

end DebugOp

/-- Timers and waiting. -/
inductive ThreadOp where
  | start | stop | pause | resume | isRunning | isPaused | period | fireCount | info
  | list | stopOwner | count | sleep
deriving DecidableEq, Repr

namespace ThreadOp

/-- Every operation of the category. -/
def all : List ThreadOp :=
  [start, stop, pause, resume, isRunning, isPaused, period, fireCount, info, list, stopOwner,
    count, sleep]

/-- The contract of an operation. -/
def signature : ThreadOp → Signature
  | start => ⟨"thread.timerstart", .string,
    [required "name" .string, required "period" .long, required "callback" .any, optional
      "owner" .string]⟩
  | stop => ⟨"thread.timerstop", .bool, [required "name" .string]⟩
  | pause => ⟨"thread.timerpause", .bool, [required "name" .string]⟩
  | resume => ⟨"thread.timerresume", .bool, [required "name" .string]⟩
  | isRunning => ⟨"thread.timerisrunning", .bool, [required "name" .string]⟩
  | isPaused => ⟨"thread.timerispaused", .bool, [required "name" .string]⟩
  | period => ⟨"thread.timergetperiod", .long, [required "name" .string]⟩
  | fireCount => ⟨"thread.timergetfirecount", .long, [required "name" .string]⟩
  | info => ⟨"thread.timergetinfo", .json, [required "name" .string]⟩
  | list => ⟨"thread.timerlist", .json, []⟩
  | stopOwner => ⟨"thread.timerstopowner", .int, [optional "owner" .string]⟩
  | count => ⟨"thread.getcount", .long, []⟩
  | sleep => ⟨"thread.sleep", .null, [required "millis" .long]⟩

end ThreadOp

/-- Digests, passwords and signed tokens. -/
inductive CryptoOp where
  | hashPassword | verifyPassword | jwtSign | jwtVerify | sha256
deriving DecidableEq, Repr

namespace CryptoOp

/-- Every operation of the category. -/
def all : List CryptoOp :=
  [hashPassword, verifyPassword, jwtSign, jwtVerify, sha256]

/-- The contract of an operation. -/
def signature : CryptoOp → Signature
  | hashPassword => ⟨"crypto.hashpassword", .string, [required "password" .string]⟩
  | verifyPassword => ⟨"crypto.verifypassword", .bool,
    [required "hash" .string, required "password" .string]⟩
  | jwtSign => ⟨"crypto.jwtsign", .string,
    [required "claims" .json, required "secret" .string, optional "expires" .string]⟩
  | jwtVerify => ⟨"crypto.jwtverify", .json, [required "token" .string, required "secret" .string]⟩
  | sha256 => ⟨"crypto.sha256", .string, [required "value" .string]⟩

end CryptoOp

/-- Sending mail. -/
inductive MailOp where
  | send
deriving DecidableEq, Repr

namespace MailOp

/-- Every operation of the category. -/
def all : List MailOp :=
  [send]

/-- The contract of an operation. -/
def signature : MailOp → Signature
  | send => ⟨"mail.send", .bool,
    [required "to" .string, required "subject" .string, optional "body" .string, optional "html"
      .string, optional "from" .string]⟩

end MailOp

/-- Web sockets. -/
inductive SocketOp where
  | connect | send | read | close
deriving DecidableEq, Repr

namespace SocketOp

/-- Every operation of the category. -/
def all : List SocketOp :=
  [connect, send, read, close]

/-- The contract of an operation. -/
def signature : SocketOp → Signature
  | connect => ⟨"ws.connect", .string, [required "url" .string]⟩
  | send => ⟨"ws.send", .bool, [required "handle" .string, required "message" .string]⟩
  | read => ⟨"ws.read", .string, [required "handle" .string]⟩
  | close => ⟨"ws.close", .bool, [required "handle" .string]⟩

end SocketOp

/-- Files. -/
inductive FileOp where
  | openFile | close | listOpenFiles | readLine | writeLine | atEnd | size | readText
  | writeText | appendText | pathExists | delete | listFiles
deriving DecidableEq, Repr

namespace FileOp

/-- Every operation of the category. -/
def all : List FileOp :=
  [openFile, close, listOpenFiles, readLine, writeLine, atEnd, size, readText, writeText,
    appendText, pathExists, delete, listFiles]

/-- The contract of an operation. -/
def signature : FileOp → Signature
  | openFile => ⟨"file.open", .string, [required "path" .string, optional "mode" .string]⟩
  | close => ⟨"file.close", .bool, [required "handle" .string]⟩
  | listOpenFiles => ⟨"file.listopenfiles", .json, []⟩
  | readLine => ⟨"file.readln", .string, [required "handle" .string]⟩
  | writeLine => ⟨"file.writeln", .bool, [required "handle" .string, optional "text" .string]⟩
  | atEnd => ⟨"file.eof", .bool, [required "handle" .string]⟩
  | size => ⟨"file.size", .long, [required "pathorhandle" .string]⟩
  | readText => ⟨"file.readtextfile", .string, [required "path" .string]⟩
  | writeText => ⟨"file.writetextfile", .bool,
    [required "path" .string, optional "content" .string]⟩
  | appendText => ⟨"file.appendtotextfile", .bool,
    [required "path" .string, optional "content" .string]⟩
  | pathExists => ⟨"file.exists", .bool, [required "path" .string]⟩
  | delete => ⟨"file.delete", .bool, [required "path" .string]⟩
  | listFiles => ⟨"file.listfiles", .json, [optional "path" .string]⟩

end FileOp

/-- Requests to web servers. -/
inductive HttpOp where
  | getText | getJson | postText | postJson
deriving DecidableEq, Repr

namespace HttpOp

/-- Every operation of the category. -/
def all : List HttpOp :=
  [getText, getJson, postText, postJson]

/-- The contract of an operation. -/
def signature : HttpOp → Signature
  | getText => ⟨"http.gettext", .string,
    [required "url" .string, optional "headers" .json, optional "timeoutms" .long]⟩
  | getJson => ⟨"http.getjson", .json,
    [required "url" .string, optional "headers" .json, optional "timeoutms" .long]⟩
  | postText => ⟨"http.posttext", .string,
    [required "url" .string, optional "body" .string, optional "headers" .json, optional
      "timeoutms" .long]⟩
  | postJson => ⟨"http.postjson", .json,
    [required "url" .string, optional "body" .json, optional "headers" .json, optional
      "timeoutms" .long]⟩

end HttpOp

/-- Pictures. -/
inductive ImageOp where
  | create | width | height | fill | scale | savePng | loadPng
deriving DecidableEq, Repr

namespace ImageOp

/-- Every operation of the category. -/
def all : List ImageOp :=
  [create, width, height, fill, scale, savePng, loadPng]

/-- The contract of an operation. -/
def signature : ImageOp → Signature
  | create => ⟨"image.create", .image, [required "width" .int, required "height" .int]⟩
  | width => ⟨"image.width", .int, [required "image" .image]⟩
  | height => ⟨"image.height", .int, [required "image" .image]⟩
  | fill => ⟨"image.fill", .image, [required "image" .image, required "color" .string]⟩
  | scale => ⟨"image.scale", .image,
    [required "image" .image, required "width" .int, required "height" .int]⟩
  | savePng => ⟨"image.savepng", .bool, [required "image" .image, required "path" .string]⟩
  | loadPng => ⟨"image.loadpng", .image, [required "path" .string]⟩

end ImageOp

/-- The process and its environment. -/
inductive SystemOp where
  | getEnv | setEnv | loadEnv | now
deriving DecidableEq, Repr

namespace SystemOp

/-- Every operation of the category. -/
def all : List SystemOp :=
  [getEnv, setEnv, loadEnv, now]

/-- The contract of an operation. -/
def signature : SystemOp → Signature
  | getEnv => ⟨"system.getenv", .string, [required "name" .string, optional "default" .string]⟩
  | setEnv => ⟨"system.setenv", .bool, [required "name" .string, optional "value" .string]⟩
  | loadEnv => ⟨"system.loadenv", .bool, [optional "path" .string]⟩
  | now => ⟨"system.time", .long, []⟩

end SystemOp

/-- The builtins of the script language. -/
inductive Builtin where
  | str (op : StrOp)
  | json (op : JsonOp)
  | array (op : ArrayOp)
  | queue (op : QueueOp)
  | date (op : DateOp)
  | math (op : MathOp)
  | debug (op : DebugOp)
  | thread (op : ThreadOp)
  | crypto (op : CryptoOp)
  | mail (op : MailOp)
  | socket (op : SocketOp)
  | file (op : FileOp)
  | http (op : HttpOp)
  | image (op : ImageOp)
  | system (op : SystemOp)
deriving DecidableEq, Repr

namespace Builtin

/-- Every builtin. -/
def all : List Builtin :=
  StrOp.all.map str
    ++ JsonOp.all.map json
    ++ ArrayOp.all.map array
    ++ QueueOp.all.map queue
    ++ DateOp.all.map date
    ++ MathOp.all.map math
    ++ DebugOp.all.map debug
    ++ ThreadOp.all.map thread
    ++ CryptoOp.all.map crypto
    ++ MailOp.all.map mail
    ++ SocketOp.all.map socket
    ++ FileOp.all.map file
    ++ HttpOp.all.map http
    ++ ImageOp.all.map image
    ++ SystemOp.all.map system

/-- The contract of a builtin. -/
def signature : Builtin → Signature
  | str op => op.signature
  | json op => op.signature
  | array op => op.signature
  | queue op => op.signature
  | date op => op.signature
  | math op => op.signature
  | debug op => op.signature
  | thread op => op.signature
  | crypto op => op.signature
  | mail op => op.signature
  | socket op => op.signature
  | file op => op.signature
  | http op => op.signature
  | image op => op.signature
  | system op => op.signature

/-- The builtins with their contracts. -/
def table : List (Text × Builtin) := all.map fun b => (b.signature.name, b)

/-- The builtin with a lower-case name. -/
def find? (name : Text) : Option Builtin := table.lookup name

/-- All contracts, in the order of their names. -/
def registry : Registry :=
  match Registry.build (all.map signature) with
  | .ok r => r
  | .error _ => ⟨[]⟩

end Builtin

end ScriptEngine
