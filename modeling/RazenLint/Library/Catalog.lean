import RazenLint.Library.Basic
import RazenLint.Text.Ascii

/-!
# The standard libraries

The libraries that ship with the language, in alphabetical order, each with its
functions in the order in which they are listed to a user.
-/

namespace RazenLint

def standardLibraries : List Library :=
  [⟨"apilib", [.object "get", .object "post", .object "putmethod", .object "delete",
      .object "patch", .object "call", .any "parse_json", .text "to_json", .object "create_api",
      .object "execute_api", .text "url_encode", .text "url_decode", .object "form_data",
      .boolean "is_success", .boolean "is_client_error", .boolean "is_server_error"]⟩,
    ⟨"arrlib", [.array "push", .any "pop", .text "join", .number "length", .array "unique"]⟩,
    ⟨"astlib", [.object "create_node", .object "define_node_type", .any "traverse",
      .object "create_visitor"]⟩,
    ⟨"audio", [.boolean "play", .boolean "pause", .boolean "stop", .object "record"]⟩,
    ⟨"binarylib", [.number "create", .number "open", .boolean "close", .number "write_bytes",
      .array "read_bytes", .number "seek", .number "tell", .text "bytes_to_string",
      .array "string_to_bytes", .object "stats"]⟩,
    ⟨"bitwiselib", [.number "and", .number "or", .number "xor", .number "not",
      .number "left_shift", .number "right_shift", .number "unsigned_right_shift",
      .number "get_bit", .number "set_bit", .number "count_bits", .text "to_binary",
      .text "to_hex", .number "from_binary", .number "from_hex"]⟩,
    ⟨"bolt", [.any "run", .array "parallel", .number "threads"]⟩,
    ⟨"boxlib", [.object "put", .any "get", .boolean "is_box"]⟩,
    ⟨"codegenlib", [.object "create_generator", .text "generate", .object "define_target",
      .text "emit_code"]⟩,
    ⟨"color", [.array "hex_to_rgb", .text "rgb_to_hex", .text "lighten", .text "darken",
      .text "get_ansi_color"]⟩,
    ⟨"compilerlib", [.object "create_node", .object "add_child", .text "node_to_string",
      .object "create_symbol_table", .object "add_symbol", .any "lookup_symbol",
      .array "generate_ir", .array "optimize_ir", .text "generate_assembly", .object "parse",
      .array "tokenize", .text "compile"]⟩,
    ⟨"crypto", [.text "hash", .text "encrypt", .text "decrypt"]⟩,
    ⟨"date", [.text "now", .number "year", .number "month", .number "day", .text "format",
      .number "parse", .text "add_days", .text "add_months", .text "add_years",
      .number "weekday", .text "weekday_name", .number "days_in_month", .boolean "is_leap_year",
      .number "diff_days"]⟩,
    ⟨"file", [.text "read", .boolean "write", .boolean "append", .boolean "exists",
      .boolean "delete"]⟩,
    ⟨"filesystem", [.boolean "exists", .boolean "is_file", .boolean "is_dir",
      .boolean "create_dir", .boolean "remove", .text "read_file", .boolean "write_file",
      .array "list_dir", .object "metadata", .text "absolute_path", .boolean "copy",
      .boolean "move", .text "extension", .text "file_stem", .text "parent_dir",
      .text "join_path", .boolean "change_dir", .text "current_dir", .text "temp_file",
      .text "temp_dir"]⟩,
    ⟨"htlib", [.boolean "coin", .text "bool_tos"]⟩,
    ⟨"image", [.object "load", .boolean "save", .object "resize", .object "crop"]⟩,
    ⟨"irlib", [.object "create_instruction", .array "generate", .array "optimize",
      .text "to_string"]⟩,
    ⟨"json", [.any "parse", .text "stringify"]⟩,
    ⟨"lexerlib", [.object "create_lexer", .array "tokenize", .object "define_token"]⟩,
    ⟨"loglib", [.any "infolog", .any "warnlog", .any "errorlog", .any "debuglog"]⟩,
    ⟨"mathlib", [.number "add", .number "subtract", .number "multiply", .number "divide",
      .number "power", .number "sqrt", .number "abs", .number "round", .number "floor",
      .number "ceil", .number "sin", .number "cos", .number "tan", .number "log", .number "exp",
      .number "random", .number "max", .number "min", .number "modulo"]⟩,
    ⟨"memorylib", [.number "addressof", .any "deref", .number "add_offset", .number "alloc",
      .boolean "free", .boolean "write_byte", .number "read_byte", .number "create_buffer",
      .boolean "free_buffer", .boolean "buffer_write_string", .text "buffer_read_string",
      .boolean "buffer_copy", .object "stats"]⟩,
    ⟨"netlib", [.boolean "ping", .object "get", .object "post"]⟩,
    ⟨"optimizelib", [.object "create_pass", .any "apply", .object "analyze",
      .object "create_pipeline"]⟩,
    ⟨"os", [.text "env", .text "cwd", .text "platform"]⟩,
    ⟨"parserlib", [.object "create_parser", .object "parse", .object "define_rule",
      .object "create_grammar"]⟩,
    ⟨"processlib", [.number "create", .number "wait", .boolean "is_running", .boolean "kill",
      .boolean "signal", .object "info", .text "read_stdout", .text "read_stderr",
      .boolean "write_stdin"]⟩,
    ⟨"random", [.number "int", .number "float", .any "choice", .array "shuffle"]⟩,
    ⟨"regex", [.boolean "match", .any "search", .text "replace"]⟩,
    ⟨"seed", [.text "generate", .array "map_seed", .array "noise_map", .text "name"]⟩,
    ⟨"strlib", [.text "upper", .text "lower", .text "substring", .text "replace",
      .number "length", .array "split", .text "trim", .boolean "starts_with",
      .boolean "ends_with", .boolean "contains", .text "repeat"]⟩,
    ⟨"symbollib", [.object "create_symbol_table", .object "define_symbol", .object "add_symbol",
      .any "lookup_symbol"]⟩,
    ⟨"system", [.text "exec", .number "uptime", .object "info", .number "current_time",
      .text "system_name"]⟩,
    ⟨"systemlib", [.number "getpid", .text "getcwd", .text "execute", .text "getenv",
      .boolean "setenv", .object "environ", .array "args", .boolean "path_exists",
      .text "realpath", .any "exit", .any "sleep", .text "hostname", .text "username",
      .number "current_time", .text "system_name"]⟩,
    ⟨"threadlib", [.number "create", .any "join", .boolean "is_running", .any "sleep",
      .number "mutex_create", .boolean "mutex_lock", .boolean "mutex_unlock",
      .boolean "mutex_destroy", .number "current", .number "cpu_count", .number "thread_id",
      .number "thread_count"]⟩,
    ⟨"timelib", [.number "now", .text "format", .number "parse", .number "add", .number "year",
      .number "month", .number "day"]⟩,
    ⟨"typelib", [.object "define_type", .boolean "check_type", .object "create_type_system",
      .text "infer_type"]⟩,
    ⟨"uuid", [.text "generate", .object "parse", .boolean "is_valid"]⟩,
    ⟨"validation", [.boolean "email", .boolean "phone", .boolean "required",
      .boolean "min_length"]⟩]

/-- The library that a name stands for. Case does not matter. -/
def Library.resolve? (name : String) : Option Library :=
  standardLibraries.find? (·.name = Text.asciiLower name)

/-- Whether a name stands for a library. -/
def isLibraryName (name : String) : Bool :=
  (Library.resolve? name).isSome

/-- The names of the libraries, in alphabetical order. -/
def libraryNames : List String :=
  standardLibraries.map (·.name)

end RazenLint
