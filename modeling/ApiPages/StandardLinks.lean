import ApiPages.Dict

/-!
# Links of the standard library

Documentation pages of common names of the Python standard library.

* `standardLinks` — canonical paths and their pages.
-/

namespace ApiPages

namespace StandardLinks

/-- A page of the library reference. -/
def library (page : String) : String := "https://docs.python.org/3/library/" ++ page

/-- An entry of the page on typing. -/
def typing (anchor : String) : String := library ("typing.html#" ++ anchor)

/-- The names and their pages. -/
def table : List (String × String) :=
  [
    ("builtins", library "functions.html"),
    ("builtins.dict", library "functions.html#func-dict"),
    ("Exception", "https://docs.python.org/3/tutorial/errors.html"),
    ("RuntimeError", library "exceptions.html#RuntimeError"),
    ("bytes", library "stdtypes.html#bytes-and-bytearray-operations"),
    ("str", library "stdtypes.html#text-sequence-type-str"),
    ("bool", library "stdtypes.html#boolean-type-bool"),
    ("int", library "stdtypes.html#numeric-types-int-float-complex"),
    ("float", library "stdtypes.html#numeric-types-int-float-complex"),
    ("list", library "stdtypes.html#lists"),
    ("dict", library "stdtypes.html#mapping-types-dict"),
    ("set", library "stdtypes.html#set"),
    ("tuple", library "stdtypes.html#tuple"),
    ("asyncio", library "asyncio.html"),
    ("asyncio.subprocess.Process", library "asyncio-subprocess.html"),
    ("collections.abc.Callable", library "collections.abc.html#collections.abc.Callable"),
    ("collections.abc.Coroutine", library "collections.abc.html#collections.abc.Coroutine"),
    ("collections.abc.Iterable", library "collections.abc.html#collections.abc.Iterable"),
    ("collections.abc.Mapping", library "collections.abc.html#collections.abc.Mapping"),
    ("io.BytesIO", library "io.html#io.BytesIO"),
    ("enum.Enum", library "enum.html"),
    ("abc.ABC", library "abc.html"),
    ("collections.abc.Awaitable", library "collections.abc.html#collections.abc.Awaitable"),
    ("pathlib.Path", library "pathlib.html#pathlib.Path"),
    ("typing.List", typing "typing.List"),
    ("typing.Dict", typing "typing.Dict"),
    ("typing.Tuple", typing "typing.Tuple"),
    ("typing.Optional", typing "typing.Optional"),
    ("typing.Union", typing "typing.Union"),
    ("typing.Any", typing "typing.Any"),
    ("typing.Mapping", typing "typing.Mapping"),
    ("typing.Awaitable", typing "typing.Awaitable"),
    ("typing.Callable", typing "typing.Callable"),
    ("typing.Set", typing "typing.Set"),
    ("typing.NamedTuple", typing "typing.NamedTuple"),
    ("typing.Literal", typing "typing.Literal"),
    ("typing.TypeVar", typing "typing.TypeVar"),
    ("typing.TypedDict", typing "typing.TypedDict"),
    ("typing.Generic", "https://mypy.readthedocs.io/en/stable/generics.html"),
    ("asyncio.Future", library "asyncio-future.html"),
    ("dataclasses", library "dataclasses.html"),
    ("dataclasses.field", library "dataclasses.html#dataclasses.field"),
    ("dataclasses.dataclass", library "dataclasses.html#dataclasses.dataclass"),
    ("pathlib.Path.home", library "pathlib.html#pathlib.Path.home"),
    ("tempfile", library "tempfile.html"),
    ("tempfile.gettempdir", library "tempfile.html#tempfile.gettempdir"),
    ("threading.Lock", library "threading.html#threading.Lock"),
    ("threading.Thread", library "threading.html#threading.Thread"),
    ("time", library "time.html"),
    ("time.time", library "time.html#time.time")]

end StandardLinks

/-- The page of every name of the standard library that has one here. -/
def standardLinks : Dict String := Dict.ofList StandardLinks.table

end ApiPages
